import LispReader.Text.Blank

/-!
String literals. `decodeString` resolves the escapes of what follows an opening quote and finds
the closing one, which has to be the last character.
-/

namespace LispReader.Lexeme

/-- The character that a backslash makes of the one behind it. -/
def unescape? : Char → Option Char
  | '\\' => some '\\'
  | '"' => some '"'
  | '\'' => some '\''
  | 'n' => some '\n'
  | 'r' => some '\r'
  | 't' => some '\t'
  | _ => none

/-- What is wrong with a string literal. -/
inductive StringFlaw where
  | unterminated
  | unknownEscape (escape : Char)
  | afterString
  deriving Repr, DecidableEq

/-- The characters of a string literal, given what follows its opening quote. The first flaw from
the left decides. -/
def decodeString : List Char → Except StringFlaw (List Char)
  | [] => .error .unterminated
  | '"' :: rest => if rest.isEmpty then .ok [] else .error .afterString
  | ['\\'] => .error .unterminated
  | '\\' :: escape :: rest =>
    match unescape? escape with
    | none => .error (.unknownEscape escape)
    | some c => (c :: ·) <$> decodeString rest
  | c :: rest => (c :: ·) <$> decodeString rest

end LispReader.Lexeme
