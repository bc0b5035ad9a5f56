/-!
Tokens: the forms of the language, and the marks that stand between them while a form is being put
together. Lists are chains of cells, as the language itself has them, so a chain may end in any
token; one that ends in the empty list is a proper list.

The type of field values is a parameter. Reading only ever makes numbers and texts, but a token
may carry other values, and every operation on trees is indifferent to them.
-/

namespace LispReader

/-- The variants of a token. -/
inductive Token.Kind where
  | integer
  | float
  | rational
  | string
  | symbol
  | nil
  | emptyList
  | cons
  | listStart
  | listEnd
  | dot
  | comment
  | quotePrefix
  deriving Repr, DecidableEq, Inhabited

namespace Token.Kind

def all : List Kind :=
  [.integer, .float, .rational, .string, .symbol, .nil, .emptyList, .cons, .listStart, .listEnd,
    .dot, .comment, .quotePrefix]

theorem mem_all (kind : Kind) : kind ∈ all := by
  cases kind <;> decide

/-- The name by which records and diagnostics call a variant. -/
def name : Kind → String
  | .integer => "Integer"
  | .float => "Float"
  | .rational => "Rational"
  | .string => "String"
  | .symbol => "Symbol"
  | .nil => "Nil"
  | .emptyList => "EmptyList"
  | .cons => "Cons"
  | .listStart => "ListStart"
  | .listEnd => "ListEnd"
  | .dot => "Dot"
  | .comment => "Comment"
  | .quotePrefix => "QuotePrefix"

def ofName? (name : String) : Option Kind :=
  all.find? fun kind => kind.name == name

@[simp]
theorem ofName?_name (kind : Kind) : ofName? kind.name = some kind := by
  cases kind <;> decide

/-- The names of a variant's fields, in the order of the record. -/
def fieldNames : Kind → List String
  | .integer | .float | .string | .symbol => ["value"]
  | .rational => ["numerator", "denominator"]
  | .nil | .emptyList | .listStart | .listEnd | .dot => []
  | .cons => ["head", "tail"]
  | .comment => ["depth", "text"]
  | .quotePrefix => ["operator"]

/-- Structural variants live only inside the reader: they open, close and mark forms. A comment
counts as one, since it stands for no form. -/
def isStructural : Kind → Bool
  | .listStart | .listEnd | .dot | .comment | .quotePrefix => true
  | _ => false

end Token.Kind

/-- A token whose fields hold values of type `α`. -/
inductive Token (α : Type) where
  | integer (value : α)
  | float (value : α)
  /-- A ratio as it was written; it is not reduced. -/
  | rational (numerator denominator : α)
  | string (value : α)
  | symbol (value : α)
  /-- The atom that means nothing. It is not the empty list. -/
  | nil
  | emptyList
  | cons (head tail : Token α)
  | listStart
  | listEnd
  | dot
  /-- The number of marks in front of a comment, and the text behind them. -/
  | comment (depth text : α)
  /-- A quote mark that waits for the form it applies to. -/
  | quotePrefix (operator : α)
  deriving Repr, DecidableEq, Inhabited

namespace Token

variable {α : Type}

def kind : Token α → Kind
  | .integer _ => .integer
  | .float _ => .float
  | .rational _ _ => .rational
  | .string _ => .string
  | .symbol _ => .symbol
  | .nil => .nil
  | .emptyList => .emptyList
  | .cons _ _ => .cons
  | .listStart => .listStart
  | .listEnd => .listEnd
  | .dot => .dot
  | .comment _ _ => .comment
  | .quotePrefix _ => .quotePrefix

/-- Whether a token stands for no form. -/
def isStructural (token : Token α) : Bool :=
  token.kind.isStructural

def isComment : Token α → Bool
  | .comment _ _ => true
  | _ => false

/-- What a field of a token holds: a value of its own, or a token. -/
inductive Field (α : Type) where
  | leaf (value : α)
  | child (token : Token α)

/-- The fields of a token with their names, in the order of the record. -/
def fields : Token α → List (String × Field α)
  | .integer value | .float value | .string value | .symbol value => [("value", .leaf value)]
  | .rational numerator denominator =>
    [("numerator", .leaf numerator), ("denominator", .leaf denominator)]
  | .nil | .emptyList | .listStart | .listEnd | .dot => []
  | .cons head tail => [("head", .child head), ("tail", .child tail)]
  | .comment depth text => [("depth", .leaf depth), ("text", .leaf text)]
  | .quotePrefix operator => [("operator", .leaf operator)]

theorem map_fst_fields (token : Token α) : token.fields.map Prod.fst = token.kind.fieldNames := by
  cases token <;> rfl

/-- The keys of a token's record: the variant comes first, under its own key. -/
def recordKeys (token : Token α) : List String :=
  "type" :: token.kind.fieldNames

/-- The token of a variant without cells, its field values looked up by name. There is none if a
field is missing, and none for a cell. -/
def ofLeaves? (kind : Kind) (value? : String → Option α) : Option (Token α) :=
  match kind with
  | .integer => return .integer (← value? "value")
  | .float => return .float (← value? "value")
  | .rational => return .rational (← value? "numerator") (← value? "denominator")
  | .string => return .string (← value? "value")
  | .symbol => return .symbol (← value? "value")
  | .nil => some .nil
  | .emptyList => some .emptyList
  | .cons => none
  | .listStart => some .listStart
  | .listEnd => some .listEnd
  | .dot => some .dot
  | .comment => return .comment (← value? "depth") (← value? "text")
  | .quotePrefix => return .quotePrefix (← value? "operator")

end Token

end LispReader
