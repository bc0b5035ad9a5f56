import LispReader.Text.Quoted
import LispReader.Text.Utf16

/-!
Texts as JSON has them: between double quotes, with the characters escaped that must not stand
there. On demand everything outside of printable ASCII is escaped too.
-/

namespace LispReader.Json

open LispReader.Text

/-- The letter of a short escape. -/
def shortEscape? : Char → Option Char
  | '"' => some '"'
  | '\\' => some '\\'
  | '\n' => some 'n'
  | '\r' => some 'r'
  | '\t' => some 't'
  | '\x08' => some 'b'
  | '\x0c' => some 'f'
  | _ => none

def escapeUnit (unit : Nat) : List Char :=
  '\\' :: 'u' :: hexDigits 4 unit

/-- Whether a character without a short escape is escaped. -/
def needsEscape (asciiOnly : Bool) (c : Char) : Bool :=
  c.toNat < 0x20 || (asciiOnly && 0x7e < c.toNat)

def escapeChar (asciiOnly : Bool) (c : Char) : List Char :=
  match shortEscape? c with
  | some letter => ['\\', letter]
  | none => if needsEscape asciiOnly c then (units16 c).flatMap escapeUnit else [c]

/-- A text between double quotes. -/
def quote (asciiOnly : Bool) (text : String) : String :=
  String.ofList ('"' :: text.toList.flatMap (escapeChar asciiOnly) ++ ['"'])

end LispReader.Json
