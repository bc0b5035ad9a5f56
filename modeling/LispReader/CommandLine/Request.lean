import LispReader.CommandLine.Screen

/-!
What a command line asks for. Switches of the program stand before the command; behind it stand
the command's own. Help and the version are asked for by the first switch that does so, whatever
stands behind it. Arguments that nothing is made of are complained of last.
-/

namespace LispReader.CommandLine

structure Job where
  /-- The path of the text, a dash for the standard input. There is none if the switch for it is
  given without a value. -/
  input : Option String
  verbose : Bool
  /-- The file that diagnostics are appended to. -/
  log : Option String
  deriving Repr, DecidableEq

/-- What a command line asks for. -/
inductive Request where
  | help (screen : Screen)
  | version
  | nothing
  | complaint (screen : Screen) (fault : UsageFault)
  | parse (job : Job)
  deriving Repr, DecidableEq

namespace Request

/-- The request of the steps behind the command, given the job so far and the arguments that
nothing was made of. The value of the input is known once the switch for it has been seen. -/
def ofCommand (verbose : Bool) (log : Option String) (input : Option (Option String))
    (extras : List String) : List Step → Request
  | [] =>
    match input with
    | none => .complaint .parse (.missing .input)
    | some input =>
      if extras.isEmpty then .parse { input, verbose, log }
      else .complaint .main (.unrecognized extras)
  | .fault fault :: _ => .complaint .parse (.misuse fault)
  | .extra text :: rest => ofCommand verbose log input (extras ++ [text]) rest
  | .operand text _ :: rest => ofCommand verbose log input (extras ++ [text]) rest
  | .switch .help _ :: _ => .help .parse
  | .switch .input value :: rest => ofCommand verbose log (some value) extras rest
  | .switch _ _ :: rest => ofCommand verbose log input extras rest

/-- The request of the steps of a command line. The first operand is the command. An empty name of
a log asks for none, and so does a missing one. -/
def ofSteps (verbose : Bool) (log : Option String) (extras : List String) :
    List Step → Request
  | [] => if extras.isEmpty then .nothing else .complaint .main (.unrecognized extras)
  | .fault fault :: _ => .complaint .main (.misuse fault)
  | .extra text :: rest => ofSteps verbose log (extras ++ [text]) rest
  | .operand text arguments :: _ =>
    if text = parseName then
      match classifyAll Screen.parse.switches arguments with
      | .error ambiguity => .complaint .parse (.ambiguous ambiguity)
      | .ok words => ofCommand verbose log none extras (steps Screen.parse.switches words)
    else .complaint .main (.unknownCommand text)
  | .switch .help _ :: _ => .help .main
  | .switch .version _ :: _ => .version
  | .switch .verbose _ :: rest => ofSteps true log extras rest
  | .switch .log value :: rest =>
    ofSteps verbose (value.filter fun path => path != "") extras rest
  | .switch .input _ :: rest => ofSteps verbose log extras rest

def ofArguments (arguments : List String) : Request :=
  match classifyAll Screen.main.switches arguments with
  | .error ambiguity => .complaint .main (.ambiguous ambiguity)
  | .ok words => ofSteps false none [] (steps Screen.main.switches words)

end Request

end LispReader.CommandLine
