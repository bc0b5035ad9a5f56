import LispReader.Main
import LispReader.Host.World
import LispReader.Record.Decode
import LispReader.Value.Equality
import LispReader.Proofs.Reader.Derivation
import LispReader.Proofs.Reader.Run
import LispReader.Proofs.Reader.Step
import LispReader.Proofs.Reader.Comment
import LispReader.Proofs.Reader.Grammar
import LispReader.Proofs.Lexeme.Open
import LispReader.Proofs.Lexeme.Append
import LispReader.Proofs.Lexeme.Partition
import LispReader.Proofs.Lexeme.Blanked
import LispReader.Proofs.Decimal.Shape
import LispReader.Proofs.Lexeme.Meaning
import LispReader.Proofs.Reader.Append
import LispReader.Proofs.Reader.Blanked
import LispReader.Proofs.Reader.Level
import LispReader.Proofs.Reader.Completion
import LispReader.Proofs.Decimal.Written
import LispReader.Proofs.Form.Print
import LispReader.Proofs.Reader.Single
import LispReader.Proofs.Form.RoundTrip
import LispReader.Proofs.Lexeme.Outcome
import LispReader.Proofs.Form.Sound
import LispReader.Proofs.Form.Built
import LispReader.Proofs.Lexeme.Oversize
import LispReader.Proofs.CommandLine.Failure
import LispReader.Proofs.Value.Leaves
import LispReader.Proofs.Json.Refusal
import LispReader.Proofs.Json.Flat
import LispReader.Proofs.Record.Nested
import LispReader.Proofs.Record.Stack
import LispReader.Proofs.Decimal.Binary64
import LispReader.Proofs.Decimal.Nearest
import LispReader.Proofs.Decimal.Shortest
import LispReader.Proofs.Decimal.Reread
import LispReader.Proofs.Json.Quoted
import LispReader.Proofs.Json.Number
import LispReader.Proofs.Json.Double
import LispReader.Proofs.Json.Plain
import LispReader.Proofs.Json.Denotes
import LispReader.Proofs.Json.Object
import LispReader.Proofs.Record.Decode
import LispReader.Proofs.Record.RoundTrip
import LispReader.Proofs.Record.Typed
import LispReader.Proofs.Record.Lines
import LispReader.Proofs.Host.World
import LispReader.Proofs.Settings.Load
import LispReader.Proofs.CommandLine.Parse
import LispReader.Proofs.Lexeme.Joined
import LispReader.Proofs.Reader.Joined
import LispReader.Proofs.Record.Framing
import LispReader.Proofs.Reader.Watched
import LispReader.Proofs.Reader.Supply
import LispReader.Proofs.Reader.Lookahead
import LispReader.Proofs.Host.Path
import LispReader.Proofs.Host.Tree
import LispReader.Proofs.Host.Appending
import LispReader.Proofs.Settings.Apart
import LispReader.Proofs.CommandLine.Flags
import LispReader.Proofs.CommandLine.Noting
import LispReader.Proofs.CommandLine.Diagnostics
import LispReader.Proofs.Lexeme.Ending
import LispReader.Proofs.Record.Recursion
import LispReader.Proofs.Record.Fault
import LispReader.Proofs.Json.Legible
import LispReader.Proofs.Json.Origin
import LispReader.Proofs.Record.Canonical
import LispReader.Proofs.Reader.Retained
import LispReader.Proofs.Reader.Sole
import LispReader.Proofs.Reader.Place
import LispReader.Proofs.Reader.Marked
import LispReader.Proofs.Value.Entries
import LispReader.Proofs.Lexeme.Numeral
import LispReader.Proofs.Lexeme.Literal
import LispReader.Proofs.Lexeme.Atom
import LispReader.Proofs.Settings.Content
import LispReader.Proofs.Reader.Feeding
import LispReader.Proofs.Reader.Procedure
import LispReader.Proofs.Reader.Descent
import LispReader.Proofs.Reader.Depth
import LispReader.Proofs.Lexeme.Precedence
import LispReader.Proofs.Token.Splice
import LispReader.Proofs.Decimal.Equality
import LispReader.Proofs.Value.Agreement
import LispReader.Proofs.Value.Describe
import LispReader.Proofs.Value.Conversion
import LispReader.Proofs.Value.Comparison
import LispReader.Proofs.Record.Distinct
import LispReader.Proofs.Record.Separators
import LispReader.Proofs.Host.Parent
import LispReader.Proofs.Host.Walk
import LispReader.Proofs.Settings.Nearest
import LispReader.Proofs.Text.Lines
import LispReader.Proofs.Token.Walk
