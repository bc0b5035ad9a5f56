import LispReader.Decimal.Numeral
import LispReader.Report

/-!
Why a lexeme has no meaning.
-/

namespace LispReader

/-- A lexeme without a meaning. The text in a fault is the lexeme, or the part of it behind quote
marks that is at fault. -/
inductive LexemeFault where
  | empty
  | unmatched (lexeme : String)
  /-- A whole number, or a part of a ratio, does not fit into 64 bits. -/
  | integerRange (lexeme : String)
  | floatRange (lexeme : String)
  /-- A backslash stands before a character that it gives no meaning. -/
  | unknownEscape (escape : Char) (lexeme : String)
  /-- The closing quote of a string is not its last character. -/
  | afterString (lexeme : String)
  | unterminatedString (lexeme : String)
  /-- What stands behind a quote mark is no form. -/
  | nothingToQuote (operator lexeme : String)
  /-- A whole number has more digits than are converted. -/
  | tooManyDigits (count : Nat)
  deriving Repr, DecidableEq

namespace LexemeFault

def lexeme : LexemeFault → String
  | .empty | .tooManyDigits _ => ""
  | .unmatched lexeme | .integerRange lexeme | .floatRange lexeme | .unknownEscape _ lexeme
  | .afterString lexeme | .unterminatedString lexeme | .nothingToQuote _ lexeme => lexeme

def message : LexemeFault → String
  | .empty => "empty lexeme"
  | .unmatched lexeme => s!"token parsing error on {Text.quote lexeme}"
  | .integerRange lexeme => s!"integer out of 64-bit range in {Text.quote lexeme}"
  | .floatRange lexeme => s!"float out of range in {Text.quote lexeme}"
  | .unknownEscape escape lexeme =>
    "unknown escape sequence \\" ++ String.singleton escape ++ " in string " ++ Text.quote lexeme
  | .afterString lexeme => s!"unexpected characters after string {Text.quote lexeme}"
  | .unterminatedString lexeme => s!"unterminated string {Text.quote lexeme}"
  | .nothingToQuote operator lexeme => s!"nothing to {operator} in {Text.quote lexeme}"
  | .tooManyDigits count => Decimal.tooManyDigits count

/-- The report of a fault. A number that is too long to be converted is no failure of reading,
and there is no report of one. -/
def report? : LexemeFault → Option Report
  | .tooManyDigits _ => none
  | fault => some { kind := .lexeme, message := fault.message, lexeme := fault.lexeme }

end LexemeFault

end LispReader
