import LispReader.Text.Position
import LispReader.Text.Quoted

/-!
Reports: what a caller sees of a failure. A report has a kind, a message and, as a rule, a place.
Faults of the several parts of the library are causes; each can be turned into a report.
-/

namespace LispReader

/-- What went wrong, in the large. -/
inductive Report.Kind where
  /-- Reading failed, for whatever reason. -/
  | reader
  | lexeme
  | structural
  /-- A tail was to be replaced where none can be. -/
  | tree
  deriving Repr, DecidableEq, Inhabited

def Report.Kind.name : Report.Kind → String
  | .reader => "ReaderError"
  | .lexeme => "TokenClassificationError"
  | .structural => "StructuralParseError"
  | .tree => "InvalidTreeOperation"

/-- A failure as it is shown. The place may be missing, or be there only in part. -/
structure Report where
  kind : Report.Kind
  message : String
  /-- The lexeme without a meaning, for a failure of that kind. -/
  lexeme : String := ""
  line : Option Int := none
  column : Option Int := none
  deriving Repr, DecidableEq, Inhabited

namespace Report

/-- A number, or the word for a missing one. -/
def showNumber : Option Int → String
  | some n => toString n
  | none => "None"

/-- The message, and behind it the place if the line is known. -/
def text (report : Report) : String :=
  match report.line with
  | none => report.message
  | some line => s!"{report.message} (line: {line}, col: {showNumber report.column})"

/-- The kind with the message alone. -/
def describe (report : Report) : String :=
  s!"{report.kind.name}({Text.quote report.message})"

/-- A report of a place. -/
def atPosition (report : Report) (position : Option Text.Position) : Report :=
  { report with
    line := position.map fun p => p.line
    column := position.map fun p => p.column }

end Report

end LispReader
