import LispReader.Lexeme.Fault
import LispReader.Lexeme.Span

/-!
Why reading fails: a lexeme has no meaning, or lexemes do not form a form.
-/

namespace LispReader

open LispReader.Text (Position)

/-- Why lexemes do not form a form. -/
inductive StructureFault where
  /-- A form was asked for at the end of the text. -/
  | endOfInput
  /-- A text that should hold one form holds none. -/
  | noForm
  /-- A text that should hold one form goes on after it. -/
  | trailingInput
  /-- A closing parenthesis stands where no list is open. -/
  | unexpectedClose
  /-- A dot stands where no tail can follow. -/
  | strayDot
  /-- The text ends where a form has to follow; the notice says what it was for. -/
  | missing (notice : String)
  | unterminatedList
  | nothingBeforeDot
  | nothingAfterDot
  | severalAfterDot
  /-- A list or a quote mark opens one level more than is allowed. -/
  | tooDeep (limit : Int)
  deriving Repr, DecidableEq

namespace StructureFault

/-- The notice for a form that is missing after a quote mark. -/
def expectedAfter (mark : String) : StructureFault :=
  .missing s!"expected a form after {Text.quote mark}"

def message : StructureFault → String
  | .endOfInput => "unexpected end of input"
  | .noForm => "no form to read"
  | .trailingInput => "unexpected trailing input"
  | .unexpectedClose => "unexpected ')'"
  | .strayDot => "unexpected '.' outside of a list"
  | .missing notice => notice
  | .unterminatedList => "unterminated list, expected ')'"
  | .nothingBeforeDot => "malformed dotted pair: no form before '.'"
  | .nothingAfterDot => "malformed dotted pair: no form after '.'"
  | .severalAfterDot => "malformed dotted pair: more than one form after '.'"
  | .tooDeep limit => s!"forms nested deeper than {limit} levels"

end StructureFault

/-- A failure of reading, with the place that it is found at. -/
inductive ReadError where
  | lexeme (fault : LexemeFault) (position : Option Position)
  | structural (fault : StructureFault) (position : Option Position)
  deriving Repr, DecidableEq

namespace ReadError

def message : ReadError → String
  | .lexeme fault _ => fault.message
  | .structural fault _ => fault.message

/-- The report of a failure. There is none of a number that is too long to be converted. -/
def report? : ReadError → Option Report
  | .lexeme fault position => (fault.report?).map fun report => report.atPosition position
  | .structural fault position =>
    some (Report.atPosition { kind := .structural, message := fault.message } position)

/-- The wording of a failure, with its place if it has one. -/
def text (error : ReadError) : String :=
  match error.report? with
  | some report => report.text
  | none => error.message

end ReadError

end LispReader
