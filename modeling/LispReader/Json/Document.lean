import LispReader.Json.Mark

/-!
Reading JSON. A document is a stack of the arrays and objects that are open; `feed` says what a
mark does to it, and `read` feeds all marks of a text. A key that comes again gives its entry a
new value and leaves it where it is.
-/

namespace LispReader.Json

/-- Why a text is not read. -/
inductive ReadFault where
  | malformed
  | tooManyDigits (count : Nat)
  deriving Repr, DecidableEq

/-- An array or an object that is open, by what has been read of it last. Items come latest
first, entries in order. -/
inductive Level where
  | arrayStart
  | arrayItem (items : List Value)
  | arrayComma (items : List Value)
  | objectStart
  | objectKey (entries : List (String × Value)) (key : String)
  | objectColon (entries : List (String × Value)) (key : String)
  | objectEntry (entries : List (String × Value))
  | objectComma (entries : List (String × Value))

/-- The levels that are open, innermost first, and the value of the text once it is finished. -/
structure Document where
  levels : List Level
  value : Option Value

namespace Document

def empty : Document := ⟨[], none⟩

/-- Whether a value may come next. -/
def awaitsValue (document : Document) : Bool :=
  match document.levels with
  | [] => document.value.isNone
  | .arrayStart :: _ | .arrayComma _ :: _ | .objectColon _ _ :: _ => true
  | _ => false

/-- Hands a finished value to the innermost level. -/
def place (document : Document) (value : Value) : Except ReadFault Document :=
  match document.levels with
  | [] => if document.value.isNone then .ok ⟨[], some value⟩ else .error .malformed
  | .arrayStart :: outer => .ok ⟨.arrayItem [value] :: outer, document.value⟩
  | .arrayComma items :: outer => .ok ⟨.arrayItem (value :: items) :: outer, document.value⟩
  | .objectColon entries key :: outer =>
    .ok ⟨.objectEntry (Entries.put entries key value) :: outer, document.value⟩
  | _ => .error .malformed

def openLevel (document : Document) (level : Level) : Except ReadFault Document :=
  if document.awaitsValue then .ok { document with levels := level :: document.levels }
  else .error .malformed

/-- What a mark does to a document. -/
def feed (document : Document) : Mark → Except ReadFault Document
  | .openArray => document.openLevel .arrayStart
  | .openObject => document.openLevel .objectStart
  | .closeArray =>
    match document.levels with
    | .arrayStart :: outer => place { document with levels := outer } (.list [])
    | .arrayItem items :: outer => place { document with levels := outer } (.list items.reverse)
    | _ => .error .malformed
  | .closeObject =>
    match document.levels with
    | .objectStart :: outer => place { document with levels := outer } (.dict [])
    | .objectEntry entries :: outer => place { document with levels := outer } (.dict entries)
    | _ => .error .malformed
  | .comma =>
    match document.levels with
    | .arrayItem items :: outer => .ok { document with levels := .arrayComma items :: outer }
    | .objectEntry entries :: outer => .ok { document with levels := .objectComma entries :: outer }
    | _ => .error .malformed
  | .colon =>
    match document.levels with
    | .objectKey entries key :: outer =>
      .ok { document with levels := .objectColon entries key :: outer }
    | _ => .error .malformed
  | .string value =>
    match document.levels with
    | .objectStart :: outer => .ok { document with levels := .objectKey [] value :: outer }
    | .objectComma entries :: outer =>
      .ok { document with levels := .objectKey entries value :: outer }
    | _ => document.place (.text value)
  | .whole digits =>
    if document.awaitsValue then
      match Decimal.readInteger digits with
      | .ok value => document.place (.int value)
      | .error count => .error (.tooManyDigits count)
    else .error .malformed
  | .real digits =>
    match Decimal.readFloat? digits with
    | some value => document.place (.float value)
    | none => .error .malformed
  | .word value => document.place value
  | .malformed => .error .malformed

end Document

/-- The value that a text denotes. -/
def read (text : List Char) : Except ReadFault Value := do
  match ← (marks text).foldlM Document.feed .empty with
  | ⟨[], some value⟩ => return value
  | _ => throw .malformed

end LispReader.Json
