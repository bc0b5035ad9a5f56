import LispReader.CommandLine.Switch

/-!
What a command line says, step by step. The words of a command line become steps: switches with
their values, operands, and arguments that nothing is made of. A fault ends the steps, and it does
so before anything that stands in the same argument counts.
-/

namespace LispReader.CommandLine

/-- A switch that is used wrongly. -/
inductive SwitchFault where
  | expectedArgument (switch : Switch)
  /-- It takes no value, and the text that is attached to it names no switch either. -/
  | ignoredArgument (switch : Switch) (text : String)
  deriving Repr, DecidableEq

/-- What the argument of a switch ends with. -/
inductive Ending where
  | complete
  /-- A switch with the text that is attached to it. -/
  | value (switch : Switch) (text : String)
  /-- A switch that has its value in the next argument. -/
  | wants (switch : Switch)
  | fault (fault : SwitchFault)
  deriving Repr, DecidableEq

/-- The switches without values in an argument, and what it ends with. -/
structure Bundle where
  flags : List Switch
  ending : Ending
  deriving Repr, DecidableEq

namespace Bundle

/-- A bundle with one more switch in front. -/
def push (switch : Switch) (bundle : Bundle) : Bundle :=
  { bundle with flags := switch :: bundle.flags }

/-- The bundle of a switch that nothing is attached to. -/
def single (switch : Switch) : Bundle :=
  if switch.takesValue then ⟨[], .wants switch⟩ else ⟨[switch], .complete⟩

/-- The bundle of a switch that a text is attached to. The letters attached to a short switch
without a value are short switches too, up to one that takes what follows for its value. -/
def ofAttached (switches : List Switch) (switch : Switch) (long : Bool)
    (text : List Char) : Bundle :=
  if switch.takesValue then ⟨[], .value switch (String.ofList text)⟩
  else
    let ignored : Bundle := ⟨[], .fault (.ignoredArgument switch (String.ofList text))⟩
    match text with
    | [] => ignored
    | letter :: more =>
      if long then ignored
      else
        match (spelled switches).lookup (String.ofList ['-', letter]) with
        | none => ignored
        | some next =>
          push switch (if more.isEmpty then single next else ofAttached switches next false more)

/-- The bundle of an argument that is taken for a switch. -/
def ofSwitch (switches : List Switch) (switch : Switch) (long : Bool) :
    Option (List Char) → Bundle
  | none => single switch
  | some attached => ofAttached switches switch long attached

end Bundle

/-- One thing that a command line says. -/
inductive Step where
  /-- A switch, with its value if it has one. -/
  | switch (switch : Switch) (value : Option String)
  /-- An operand, and all arguments behind it. -/
  | operand (text : String) (rest : List String)
  | extra (text : String)
  | fault (fault : SwitchFault)
  deriving Repr, DecidableEq

def flagSteps (flags : List Switch) : List Step :=
  flags.map fun flag => .switch flag none

/-- The value that an attached text stands for. A terminator stands for none. -/
def attachedValue? (text : String) : Option String :=
  if text = terminator then none else some text

/-- The steps of words. A terminator counts as the first operand behind it does, but it stands for
nothing where there is none. -/
def steps (switches : List Switch) : List (String × Word) → List Step
  | [] => []
  | (argument, .operand) :: rest =>
    .operand argument (rest.map Prod.fst) :: steps switches rest
  | (argument, .terminator) :: rest =>
    if rest.isEmpty then [.extra argument]
    else .operand argument (rest.map Prod.fst) :: steps switches rest
  | (argument, .unknown) :: rest => .extra argument :: steps switches rest
  | (_, .switch switch long attached) :: rest =>
    let bundle := Bundle.ofSwitch switches switch long attached
    match bundle.ending with
    | .complete => flagSteps bundle.flags ++ steps switches rest
    | .value last text =>
      flagSteps bundle.flags ++ .switch last (attachedValue? text) :: steps switches rest
    | .fault fault => [.fault fault]
    | .wants last =>
      match rest with
      | (value, .operand) :: behind =>
        flagSteps bundle.flags ++ .switch last (some value) :: steps switches behind
      | _ => [.fault (.expectedArgument last)]

end LispReader.CommandLine
