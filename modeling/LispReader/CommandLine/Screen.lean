import LispReader.CommandLine.Step
import LispReader.Text.Quoted

/-!
What the program says about its own use: the usage lines, the help texts and the complaints about a
command line. There is one set of them for the program and one for its command.
-/

namespace LispReader.CommandLine

/-- What a usage line or a help text is about. -/
inductive Screen where
  | main
  | parse
  deriving Repr, DecidableEq, Inhabited

def programName : String := "kelp"

def parseName : String := "parse"

def versionText : String := programName ++ " 0.1.0\n"

/-- Lines, each with its line feed. -/
def unlines (lines : List String) : String :=
  String.join (lines.map fun line => line ++ "\n")

namespace Screen

def name : Screen → String
  | .main => programName
  | .parse => programName ++ " " ++ parseName

def switches : Screen → List Switch
  | .main => [.help, .version, .verbose, .log]
  | .parse => [.help, .input]

def usage : Screen → String
  | .main => "usage: kelp [-h] [--version] [-v] [--log FILE] \x7bparse\x7d ...\n"
  | .parse => "usage: kelp parse [-h] --input PATH\n"

/-- The help text behind the usage line. -/
def description : Screen → List String
  | .main => [
      "",
      "kelp - A reader for a small Lisp",
      "",
      "positional arguments:",
      "  \x7bparse\x7d        Available commands",
      "    parse        Read a file and print its forms as JSON, one per line",
      "",
      "options:",
      "  -h, --help     show this help message and exit",
      "  --version      show program's version number and exit",
      "  -v, --verbose  Print diagnostics to stderr",
      "  --log FILE     Append diagnostics to FILE",
      "",
      "examples:",
      "  kelp parse --input forms.lisp     Print each form in forms.lisp as JSON",
      "  kelp parse -i - < forms.lisp      Same, reading standard input",
      "        "]
  | .parse => [
      "",
      "options:",
      "  -h, --help            show this help message and exit",
      "  --input PATH, -i PATH",
      "                        The input file to read ('-' for standard input)"]

def help (screen : Screen) : String :=
  screen.usage ++ unlines screen.description

end Screen

/-- What is wrong with a command line. -/
inductive UsageFault where
  | ambiguous (ambiguity : Ambiguity)
  | misuse (fault : SwitchFault)
  | unknownCommand (word : String)
  | missing (switch : Switch)
  | unrecognized (arguments : List String)
  deriving Repr, DecidableEq

def UsageFault.message : UsageFault → String
  | .ambiguous ambiguity =>
    s!"ambiguous option: {ambiguity.argument} could match " ++
      ", ".intercalate ambiguity.spellings
  | .misuse (.expectedArgument switch) => s!"argument {switch.name}: expected one argument"
  | .misuse (.ignoredArgument switch text) =>
    s!"argument {switch.name}: ignored explicit argument {Text.quote text}"
  | .unknownCommand word =>
    s!"argument subcommand: invalid choice: {Text.quote word} " ++
      s!"(choose from {Text.quote parseName})"
  | .missing switch => s!"the following arguments are required: {switch.name}"
  | .unrecognized arguments => "unrecognized arguments: " ++ " ".intercalate arguments

/-- The complaint about a command line, below the usage line. -/
def Screen.complaint (screen : Screen) (fault : UsageFault) : String :=
  screen.usage ++ s!"{screen.name}: error: {fault.message}\n"

end LispReader.CommandLine
