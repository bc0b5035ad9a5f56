import LispReader.Text.Digit

/-!
Switches of a command line: what may be set, how it is spelled, and what a single argument is taken
for. An argument may abbreviate a long spelling, carry a text behind an equals sign, or string
short switches together.
-/

namespace LispReader.CommandLine

/-- What may be set on the command line. -/
inductive Switch where
  | help
  | version
  | verbose
  | log
  | input
  deriving Repr, DecidableEq, Inhabited

namespace Switch

/-- The spellings of a switch, in the order in which they are shown. -/
def spellings : Switch → List String
  | .help => ["-h", "--help"]
  | .version => ["--version"]
  | .verbose => ["-v", "--verbose"]
  | .log => ["--log"]
  | .input => ["--input", "-i"]

/-- Whether a switch has a value. -/
def takesValue : Switch → Bool
  | .log | .input => true
  | .help | .version | .verbose => false

def name (switch : Switch) : String :=
  "/".intercalate switch.spellings

end Switch

def spelled (switches : List Switch) : List (String × Switch) :=
  switches.flatMap fun switch => switch.spellings.map fun spelling => (spelling, switch)

/-- The argument that all switches stand before. -/
def terminator : String := "--"

/-- What an argument is taken for. -/
inductive Word where
  | operand
  /-- The terminator: all that follows is operands. -/
  | terminator
  /-- It looks like a switch, and there is none of that spelling. -/
  | unknown
  /-- A switch, by a long spelling or a short one, and the text that is attached to it. -/
  | switch (switch : Switch) (long : Bool) (attached : Option (List Char))
  deriving Repr, DecidableEq

/-- An argument that abbreviates several spellings. -/
structure Ambiguity where
  argument : String
  spellings : List String
  deriving Repr, DecidableEq

/-- Whether a text is a negative number in places. A line feed at its end is overlooked. -/
def isNegativeNumber : List Char → Bool
  | '-' :: rest =>
    let body := if rest.getLast? = some '\n' then rest.dropLast else rest
    match body.dropWhile Text.isDecimalDigit with
    | [] => !body.isEmpty
    | '.' :: fraction => !fraction.isEmpty && fraction.all Text.isDecimalDigit
    | _ => false
  | _ => false

def isLong (spelling : String) : Bool :=
  "--".toList.isPrefixOf spelling.toList

/-- A text up to its first equals sign, and what is attached behind it. -/
def splitMark (text : List Char) : List Char × Option (List Char) :=
  match text.dropWhile fun c => c != '=' with
  | [] => (text, none)
  | _ :: attached => (text.takeWhile fun c => c != '=', some attached)

/-- What an argument that is no spelling may stand for: the long spellings that it abbreviates, or
the short one that it begins with. -/
def candidates (switches : List Switch) (argument : List Char) : List (String × Word) :=
  if "--".toList.isPrefixOf argument then
    let (abbreviation, attached) := splitMark argument
    (spelled switches).filterMap fun (spelling, switch) =>
      if abbreviation.isPrefixOf spelling.toList then
        some (spelling, .switch switch true attached)
      else none
  else
    (spelled switches).filterMap fun (spelling, switch) =>
      if spelling.toList = argument.take 2 then
        some (spelling, .switch switch false (some (argument.drop 2)))
      else none

/-- What an argument is taken for, where switches are recognized. -/
def classify (switches : List Switch) (argument : String) : Except Ambiguity Word :=
  let text := argument.toList
  let marked := splitMark text
  if text.head? ≠ some '-' then .ok .operand
  else
    match (spelled switches).lookup argument with
    | some switch => .ok (.switch switch (isLong argument) none)
    | none =>
      if text.length = 1 then .ok .operand
      else
        let spelling := String.ofList marked.1
        match marked.2, (spelled switches).lookup spelling with
        | some attached, some switch => .ok (.switch switch (isLong spelling) (some attached))
        | _, _ =>
          match candidates switches text with
          | [] =>
            if isNegativeNumber text || text.contains ' ' then .ok .operand else .ok .unknown
          | [(_, word)] => .ok word
          | several => .error ⟨argument, several.map Prod.fst⟩

/-- What arguments are taken for. The first ambiguous one decides. -/
def classifyAll (switches : List Switch) :
    List String → Except Ambiguity (List (String × Word))
  | [] => .ok []
  | argument :: rest =>
    if argument = terminator then
      .ok ((argument, .terminator) :: rest.map fun operand => (operand, .operand))
    else do
      let word ← classify switches argument
      let words ← classifyAll switches rest
      return (argument, word) :: words

end LispReader.CommandLine
