import LispReader.Token.Basic

/-!
Values: what the fields of a token hold, what a JSON text denotes and what a caller may hand over
for writing. Tokens are values themselves, so containers may hold forms.
-/

namespace LispReader

/-- A plain value, a container of values, or a token. -/
inductive Value where
  | null
  | bool (value : Bool)
  | int (value : Int)
  | float (value : Float)
  | text (value : String)
  | list (items : List Value)
  | tuple (items : List Value)
  /-- Entries in the order in which their keys first came; no key comes twice. -/
  | dict (entries : List (String × Value))
  /-- Entries of the same sort, but with a key among them that is no text. -/
  | mapping (entries : List (Value × Value))
  | bytes (value : List UInt8)
  /-- Something of which only its being there is known. -/
  | object
  | token (value : Token Value)
  deriving Inhabited

/-- Forms are tokens over values. -/
abbrev Form := Token Value

/-- The name by which diagnostics call the type of a value. -/
def Value.typeName : Value → String
  | .null => "NoneType"
  | .bool _ => "bool"
  | .int _ => "int"
  | .float _ => "float"
  | .text _ => "str"
  | .list _ => "list"
  | .tuple _ => "tuple"
  | .dict _ | .mapping _ => "dict"
  | .bytes _ => "bytes"
  | .object => "object"
  | .token value => value.kind.name

namespace Entries

def get? (entries : List (String × Value)) (key : String) : Option Value :=
  entries.lookup key

/-- Entries with a value under a key. A key that is there keeps its place. -/
def put : List (String × Value) → String → Value → List (String × Value)
  | [], key, value => [(key, value)]
  | (k, v) :: rest, key, value =>
    if k = key then (key, value) :: rest else (k, v) :: put rest key value

/-- A list of entries with repeated keys made one: each key stays where it first came and has
the value that came last. -/
def ofList (entries : List (String × Value)) : List (String × Value) :=
  entries.foldl (fun done (key, value) => put done key value) []

@[simp]
theorem get?_put (entries : List (String × Value)) (key : String) (value : Value) :
    get? (put entries key value) key = some value := by
  induction entries with
  | nil => simp [put, get?]
  | cons entry rest ih =>
      obtain ⟨k, v⟩ := entry
      by_cases h : k = key
      · simp [put, get?, h]
      · have h' : (key == k) = false := by simp [Ne.symm h]
        simpa [put, get?, h, List.lookup_cons, h'] using ih

end Entries

end LispReader
