import LispReader.Decimal.Format
import LispReader.Decimal.Numeral
import LispReader.Text.Quoted
import LispReader.Value.Basic

/-!
Descriptions of values, as diagnostics show them: texts are quoted, containers are written with
their brackets, and tokens with their variant and the names of their fields. Whatever holds a whole
number that is too long has no description.
-/

namespace LispReader

namespace Value

mutual

def describe? : Value → Option String
  | .null => some "None"
  | .bool value => some (if value then "True" else "False")
  | .int value => if Decimal.IsShort value then some (toString value) else none
  | .float value => some (Decimal.FloatFormat.standard.text value)
  | .text value => some (Text.quote value)
  | .list items => do
    return "[" ++ ", ".intercalate (← describeAll? items) ++ "]"
  | .tuple items => do
    match ← describeAll? items with
    | [item] => return "(" ++ item ++ ",)"
    | shown => return "(" ++ ", ".intercalate shown ++ ")"
  | .dict entries => do
    return "\x7b" ++ ", ".intercalate (← describeEntries? entries) ++ "\x7d"
  | .mapping entries => do
    return "\x7b" ++ ", ".intercalate (← describeMembers? entries) ++ "\x7d"
  | .bytes value => some (Text.quoteBytes value)
  | .object => some "<object object>"
  | .token value => describeToken? value

def describeAll? : List Value → Option (List String)
  | [] => some []
  | item :: rest => do
    let first ← describe? item
    let others ← describeAll? rest
    return first :: others

/-- The descriptions of entries: key, colon, value. -/
def describeEntries? : List (String × Value) → Option (List String)
  | [] => some []
  | (key, value) :: rest => do
    let first ← describe? value
    let others ← describeEntries? rest
    return (Text.quote key ++ ": " ++ first) :: others

/-- The descriptions of entries whose keys need not be texts. -/
def describeMembers? : List (Value × Value) → Option (List String)
  | [] => some []
  | (key, value) :: rest => do
    let name ← describe? key
    let first ← describe? value
    let others ← describeMembers? rest
    return (name ++ ": " ++ first) :: others

/-- The description of a token: its variant, then its fields by name. Only a symbol's field
stands without its name. -/
def describeToken? : Token Value → Option String
  | .integer value => do return "Integer(value=" ++ (← describe? value) ++ ")"
  | .float value => do return "Float(value=" ++ (← describe? value) ++ ")"
  | .rational numerator denominator => do
    return "Rational(numerator=" ++ (← describe? numerator) ++
      ", denominator=" ++ (← describe? denominator) ++ ")"
  | .string value => do return "String(value=" ++ (← describe? value) ++ ")"
  | .symbol value => do return "Symbol(" ++ (← describe? value) ++ ")"
  | .nil => some "Nil()"
  | .emptyList => some "EmptyList()"
  | .cons head tail => do
    return "Cons(head=" ++ (← describeToken? head) ++ ", tail=" ++ (← describeToken? tail) ++ ")"
  | .listStart => some "ListStart()"
  | .listEnd => some "ListEnd()"
  | .dot => some "Dot()"
  | .comment depth words => do
    return "Comment(depth=" ++ (← describe? depth) ++ ", text=" ++ (← describe? words) ++ ")"
  | .quotePrefix operator => do
    return "QuotePrefix(operator=" ++ (← describe? operator) ++ ")"

end

/-- A sentence that shows a value. Of a value without a description it is said why there is
none. -/
def shownIn (value : Value) (sentence : String → String) : String :=
  match value.describe? with
  | some shown => sentence shown
  | none => Decimal.tooLong

end Value

end LispReader
