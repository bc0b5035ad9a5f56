import LispReader.Json.Writer

/-!
Writing forms as records without going down into them. What is still to be written stands on a
stack of pieces, texts and tokens; the token on top is replaced by the pieces of its record. Chains
and nested heads are thereby treated alike, and neither nests.

`encode` is the general writer: it takes this way for a form that is not to be indented, and
`Json.write` for every other value.
-/

namespace LispReader.Record

open LispReader.Json (Layout Options WriteFault)

/-- Something that is still to be written. -/
inductive Piece where
  | fragment (text : String)
  | token (form : Form)

/-- How much is left to take apart in a piece. -/
noncomputable def Piece.weight : Piece → Nat
  | .fragment _ => 0
  | .token form => sizeOf form

/-- The layout of field values. They keep the escapes of a layout and its view of doubles, and
nothing else; tokens inside of them are not written. -/
def valueLayout (layout : Layout) : Layout where
  asciiOnly := layout.asciiOnly
  finiteOnly := layout.finiteOnly
  records := false

/-- The piece for what a field holds. -/
def fieldPiece (layout : Layout) : Token.Field Value → Except WriteFault Piece
  | .child token => .ok (.token token)
  | .leaf (.token token) => .ok (.token token)
  | .leaf value => Piece.fragment <$> Json.write (valueLayout layout) 0 value

/-- The pieces for a field behind the first one of a record. -/
def fieldPieces (layout : Layout) (field : String × Token.Field Value) :
    Except WriteFault (List Piece) := do
  let value ← fieldPiece layout field.2
  return [.fragment (layout.itemSeparator ++ layout.quote field.1 ++ layout.keySeparator), value]

/-- The pieces of a token's record. -/
def expand (layout : Layout) (form : Form) : Except WriteFault (List Piece) := do
  let key := "\x7b" ++ layout.quote "type" ++ layout.keySeparator
  let fields ← form.fields.mapM (fieldPieces layout)
  return .fragment key :: .fragment (layout.quote form.kind.name) :: fields.flatten ++
    [.fragment "\x7d"]

noncomputable def weight : List Piece → Nat
  | [] => 0
  | piece :: rest => piece.weight + weight rest

@[simp]
theorem weight_append (first second : List Piece) :
    weight (first ++ second) = weight first + weight second := by
  induction first with
  | nil => simp [weight]
  | cons piece rest ih => simp [weight, ih, Nat.add_assoc]

theorem weight_fieldPieces_leaf {layout : Layout} {name : String} {value : Value}
    {pieces : List Piece} (h : fieldPieces layout (name, .leaf value) = .ok pieces) :
    weight pieces ≤ sizeOf value := by
  cases value with
  | token form =>
      cases h
      simp [weight, Piece.weight]
  | _ =>
      simp only [fieldPieces, fieldPiece] at h
      generalize Json.write _ _ _ = written at h
      cases written <;> cases h
      simp [weight, Piece.weight]

theorem weight_fieldPieces_child {layout : Layout} {name : String} {form : Form}
    {pieces : List Piece} (h : fieldPieces layout (name, .child form) = .ok pieces) :
    weight pieces = sizeOf form := by
  cases h
  simp [weight, Piece.weight]

/-- What a field of a token weighs. -/
noncomputable def fieldWeight : Token.Field Value → Nat
  | .leaf value => sizeOf value
  | .child form => sizeOf form

/-- What the fields of a token weigh together. -/
noncomputable def fieldsWeight : List (String × Token.Field Value) → Nat
  | [] => 0
  | field :: rest => fieldWeight field.2 + fieldsWeight rest

theorem weight_fieldPieces_le {layout : Layout} {field : String × Token.Field Value}
    {pieces : List Piece} (h : fieldPieces layout field = .ok pieces) :
    weight pieces ≤ fieldWeight field.2 := by
  obtain ⟨name, value⟩ := field
  cases value with
  | leaf value => exact weight_fieldPieces_leaf h
  | child form => exact Nat.le_of_eq (weight_fieldPieces_child h)

theorem weight_flatten_le {layout : Layout} {fields : List (String × Token.Field Value)}
    {pieces : List (List Piece)} (h : fields.mapM (fieldPieces layout) = .ok pieces) :
    weight pieces.flatten ≤ fieldsWeight fields := by
  induction fields generalizing pieces with
  | nil =>
      cases h
      simp [weight]
  | cons field rest ih =>
      rw [List.mapM_cons] at h
      cases hFirst : fieldPieces layout field with
      | error fault => simp [hFirst, bind, Except.bind] at h
      | ok first =>
          cases hRest : rest.mapM (fieldPieces layout) with
          | error fault => simp [hFirst, hRest, bind, Except.bind] at h
          | ok others =>
              simp only [hFirst, hRest, bind, Except.bind, pure, Except.pure] at h
              cases h
              have hHead := weight_fieldPieces_le hFirst
              have hTail := ih hRest
              simp only [List.flatten_cons, weight_append, fieldsWeight]
              omega

theorem fieldsWeight_lt (form : Form) : fieldsWeight form.fields < sizeOf form := by
  cases form <;> simp [Token.fields, fieldsWeight, fieldWeight]

theorem weight_expand_lt {layout : Layout} {form : Form} {pieces : List Piece}
    (h : expand layout form = .ok pieces) : weight pieces < sizeOf form := by
  unfold expand at h
  cases hFields : form.fields.mapM (fieldPieces layout) with
  | error fault => simp [hFields, bind, Except.bind] at h
  | ok fields =>
      simp only [hFields, bind, Except.bind, pure, Except.pure] at h
      cases h
      have hFlat := weight_flatten_le hFields
      have hFields := fieldsWeight_lt form
      simp only [List.cons_append, weight, weight_append, Piece.weight]
      omega

/-- Writes the pieces of a stack, topmost first. -/
def writePieces (layout : Layout) : List Piece → Except WriteFault (List String)
  | [] => .ok []
  | .fragment text :: rest => (text :: ·) <$> writePieces layout rest
  | .token form :: rest =>
    match _h : expand layout form with
    | .error fault => .error fault
    | .ok pieces => writePieces layout (pieces ++ rest)
termination_by pieces => (weight pieces, pieces.length)
decreasing_by
  · have hStack : weight (.fragment text :: rest) = weight rest := by
      simp [weight, Piece.weight]
    rw [hStack]
    exact Prod.Lex.right _ (Nat.lt_succ_self _)
  · refine Prod.Lex.left _ _ ?_
    have hPieces := weight_expand_lt ‹_›
    have hStack : weight (.token form :: rest) = sizeOf form + weight rest := by
      simp [weight, Piece.weight]
    rw [weight_append, hStack]
    omega

def write (layout : Layout) (form : Form) : Except WriteFault String :=
  String.join <$> writePieces layout [.token form]

/-- The text of a value. Only a form that stands alone and is not indented is written from a
stack, and then its entries keep their order whatever the options say of sorting. A refused double
is shown where the text is written step by step. -/
def encode (options : Options) (value : Value) (stepwise : Bool) : Except WriteFault String :=
  match value, options.indent with
  | .token form, none => write options.layout form
  | value, indent =>
    Json.write { options.layout with showsRefused := stepwise || indent.isSome } 0 value

/-- Values written one to a line. -/
structure Lines where
  text : String
  count : Nat
  deriving Repr, DecidableEq

/-- The lines of values. If one of them cannot be written there are none. -/
def encodeLines (values : List Value) : Except WriteFault Lines := do
  let lines ← values.mapM fun value => encode {} value false
  return ⟨String.join (lines.map fun line => line ++ "\n"), lines.length⟩

/-- Hands the lines of values over, text by text, and gives their number. The first text is handed
over when all values have been written. -/
def emitLines {m : Type → Type} [Monad m] (emit : String → m Unit) (values : List Value) :
    m (Except WriteFault Nat) :=
  match values.mapM fun value => encode {} value false with
  | .error fault => return .error fault
  | .ok lines => do
    lines.forM fun line => do
      emit line
      emit "\n"
    return .ok lines.length

end LispReader.Record
