import LispReader.Decimal.Numeral
import LispReader.Json.Layout
import LispReader.Value.Order

/-!
Writing values as JSON. Lists and tuples are arrays, and a token is its record: an object with the
variant under `type` and then the fields. `write` goes down into a value; a value that cannot be
written refuses the whole text, and of several such values the first in the order of the text is
named.
-/

namespace LispReader.Json

/-- Why a value is not written. -/
inductive WriteFault where
  /-- JSON has nothing for values of this type. -/
  | unsupported (typeName : String)
  /-- JSON has nothing for keys of this type. -/
  | unsupportedKey (typeName : String)
  /-- Keys are to be sorted and have no order. -/
  | unordered (fault : OrderFault)
  /-- A double is infinite or no number; it is shown if the layout says so. -/
  | notFinite (shown : Option String)
  /-- A whole number is too long. -/
  | tooLong
  deriving Repr, DecidableEq

def WriteFault.message : WriteFault → String
  | .unsupported typeName => s!"Object of type {typeName} is not JSON serializable"
  | .unsupportedKey typeName =>
    s!"keys must be str, int, float, bool or None, not {typeName}"
  | .unordered fault => fault.message
  | .notFinite none => "Out of range float values are not JSON compliant"
  | .notFinite (some shown) => s!"Out of range float values are not JSON compliant: {shown}"
  | .tooLong => Decimal.tooLong

def writeInt (value : Int) : Except WriteFault String :=
  if Decimal.IsShort value then .ok (toString value) else .error .tooLong

def writeFloat (layout : Layout) (x : Float) : Except WriteFault String :=
  if layout.finiteOnly && !x.isFinite then
    let shown := Decimal.FloatFormat.standard.text x
    .error (.notFinite (if layout.showsRefused then some shown else none))
  else .ok (floatFormat.text x)

/-- An object at a level, of entries whose values have been written. -/
def writeObject (layout : Layout) (level : Nat)
    (entries : List (String × Except WriteFault String)) : Except WriteFault String := do
  let entries := if layout.sortKeys then entries.mergeSort fun a b => a.1 ≤ b.1 else entries
  let items ← entries.mapM fun (key, value) => do
    return layout.quote key ++ layout.keySeparator ++ (← value)
  return layout.bracket level "\x7b" "\x7d" items

/-- The text of a key. What is no text but another scalar has its own text for a key. -/
def keyText (layout : Layout) : Value → Except WriteFault String
  | .text key => .ok key
  | .null => .ok "null"
  | .bool value => .ok (if value then "true" else "false")
  | .int value => writeInt value
  | .float value => writeFloat layout value
  | other => .error (.unsupportedKey other.typeName)

/-- An object at a level, of entries whose keys need not be texts. A key is written before the
value under it. -/
def writeMapping (layout : Layout) (level : Nat)
    (entries : List (Value × Except WriteFault String)) : Except WriteFault String := do
  let entries ←
    if layout.sortKeys then (Value.sortByKey entries).mapError .unordered else pure entries
  let items ← entries.mapM fun (key, value) => do
    let name ← keyText layout key
    return layout.quote name ++ layout.keySeparator ++ (← value)
  return layout.bracket level "\x7b" "\x7d" items

/-- The record of a token at a level, its field values given as they have been written. -/
def writeRecord (layout : Layout) (level : Nat) (kind : Token.Kind)
    (values : List (Except WriteFault String)) : Except WriteFault String :=
  writeObject layout level
    (("type", .ok (layout.quote kind.name)) :: kind.fieldNames.zip values)

mutual

/-- A value that stands at a level. -/
def write (layout : Layout) (level : Nat) : Value → Except WriteFault String
  | .null => .ok "null"
  | .bool value => .ok (if value then "true" else "false")
  | .int value => writeInt value
  | .float value => writeFloat layout value
  | .text value => .ok (layout.quote value)
  | .list items => layout.bracket level "[" "]" <$> writeAll layout (level + 1) items
  | .tuple items => layout.bracket level "[" "]" <$> writeAll layout (level + 1) items
  | .dict entries => writeObject layout level (writeEntries layout (level + 1) entries)
  | .mapping entries => writeMapping layout level (writeMembers layout (level + 1) entries)
  | .bytes _ => .error (.unsupported "bytes")
  | .object => .error (.unsupported "object")
  | .token value =>
    if layout.records then writeToken layout level value
    else .error (.unsupported value.kind.name)

def writeAll (layout : Layout) (level : Nat) : List Value → Except WriteFault (List String)
  | [] => .ok []
  | item :: rest => do
    let first ← write layout level item
    let others ← writeAll layout level rest
    return first :: others

/-- The values of entries. A fault stays with its entry, since entries may yet be sorted. -/
def writeEntries (layout : Layout) (level : Nat) :
    List (String × Value) → List (String × Except WriteFault String)
  | [] => []
  | (key, value) :: rest => (key, write layout level value) :: writeEntries layout level rest

/-- The values of entries whose keys need not be texts. -/
def writeMembers (layout : Layout) (level : Nat) :
    List (Value × Value) → List (Value × Except WriteFault String)
  | [] => []
  | (key, value) :: rest => (key, write layout level value) :: writeMembers layout level rest

/-- The record of a token. -/
def writeToken (layout : Layout) (level : Nat) : Token Value → Except WriteFault String
  | .integer value => writeRecord layout level .integer [write layout (level + 1) value]
  | .float value => writeRecord layout level .float [write layout (level + 1) value]
  | .rational numerator denominator =>
    writeRecord layout level .rational
      [write layout (level + 1) numerator, write layout (level + 1) denominator]
  | .string value => writeRecord layout level .string [write layout (level + 1) value]
  | .symbol value => writeRecord layout level .symbol [write layout (level + 1) value]
  | .nil => writeRecord layout level .nil []
  | .emptyList => writeRecord layout level .emptyList []
  | .cons head tail =>
    writeRecord layout level .cons
      [writeToken layout (level + 1) head, writeToken layout (level + 1) tail]
  | .listStart => writeRecord layout level .listStart []
  | .listEnd => writeRecord layout level .listEnd []
  | .dot => writeRecord layout level .dot []
  | .comment depth words =>
    writeRecord layout level .comment
      [write layout (level + 1) depth, write layout (level + 1) words]
  | .quotePrefix operator =>
    writeRecord layout level .quotePrefix [write layout (level + 1) operator]

end

end LispReader.Json
