import LispReader.CommandLine.Request
import LispReader.Record.Writer
import LispReader.Settings

/-!
Runs of the program. A run that reads a text writes all of its forms or, after any failure, none:
everything that can fail comes before the first output. Diagnostics go to the log and, on demand,
to the diagnostic output, and have no part in the result, as long as they are taken there.
-/

namespace LispReader.CommandLine

/-- A failure that a run does not survive. It is not reported, but breaks the run off. -/
inductive Breakdown where
  | tooManyDigits (count : Nat)
  | nullCharacter
  | noPath
  | noMemory
  /-- A diagnostic has not been written. -/
  | unwritten (fault : StreamFault)
  deriving Repr, DecidableEq

/-- The wording of a breakdown. What is said of a null character does not show the path. -/
def Breakdown.message : Breakdown → String
  | .tooManyDigits count => Decimal.tooManyDigits count
  | .nullCharacter => FileFault.nullCharacter.message ""
  | .noPath => "expected str, bytes or os.PathLike object, not list"
  | .noMemory => ""
  | .unwritten fault => fault.message

inductive Exit where
  | status (code : Nat)
  | breakdown (breakdown : Breakdown)
  deriving Repr, DecidableEq

/-- Why a text is not there to be read. -/
inductive SourceFault where
  | file (fault : FileFault)
  | encoding (fault : Text.Utf8Fault)
  /-- There is more of it than can be held. -/
  | tooLong
  deriving Repr, DecidableEq

/-- What is said of a text that is not there. Nothing is said of one that cannot be held. -/
def SourceFault.message (fault : SourceFault) (path : String) : String :=
  match fault with
  | .file fault => fault.message path
  | .encoding fault => fault.message
  | .tooLong => ""

/-- The text that bytes stand for, with all line breaks alike. -/
def sourceOfBytes (bytes : List UInt8) : Except SourceFault (List Char) :=
  match Text.decodeUtf8 bytes with
  | .error fault => .error (.encoding fault)
  | .ok text =>
    let source := Text.unifyNewlines text
    if Text.lengthLimit < source.length then .error .tooLong else .ok source

/-- The number of digits of a whole number that reading has stumbled over. -/
def excessDigits? : ReadError → Option Nat
  | .lexeme (.tooManyDigits count) _ => some count
  | _ => none

/-- Stands before an account of where a failure came from. -/
def traceHeading : String := "Traceback (most recent call last):"

def standardInput : String := "-"

variable {m : Type → Type} [Monad m]

/-- Goes on when something has been written. What is not written breaks the run off. -/
def afterWriting (written : m (Except StreamFault Unit)) (next : m Exit) : m Exit := do
  match ← written with
  | .ok () => next
  | .error fault => return .breakdown (.unwritten fault)

/-- Notes something in the log and, if the user wants to see it, among the diagnostics. -/
def note (host : Host m) (job : Job) (message : String) : m (Except StreamFault Unit) :=
  ExceptT.run do
    match job.log with
    | some path => ExceptT.mk (host.appendLog path (message ++ "\n"))
    | none => pure ()
    if job.verbose then ExceptT.mk (host.writeDiagnostics s!"[{programName}] {message}\n")

/-- Ends a run for a failure that is reported. -/
def failWith (host : Host m) (report : String) : m Exit :=
  afterWriting (host.writeDiagnostics report) (return .status 1)

/-- Reports a failure, with an account of it if the user wants to see more. -/
def reportFailure (host : Host m) (job : Job) (heading account : String) : m Exit :=
  afterWriting (host.writeDiagnostics s!"Error: {heading}{account}\n") do
    if job.verbose then failWith host s!"{traceHeading}\n{account}\n"
    else return .status 1

/-- The text that is to be read. -/
def readSource (host : Host m) (path : String) : m (Except SourceFault (List Char)) := do
  let bytes ←
    if path = standardInput then Except.ok <$> host.readInput
    else host.readFile path
  match bytes with
  | .error fault => return .error (.file fault)
  | .ok bytes => return sourceOfBytes bytes

/-- Reads a text by settings and writes its forms. -/
def parseText (host : Host m) (job : Job) (settings : Settings) (text : List Char) : m Exit := do
  match readText text settings.keepComments settings.maxDepth with
  | .error error =>
    match excessDigits? error with
    | some count => return .breakdown (.tooManyDigits count)
    | none => reportFailure host job "" error.text
  | .ok forms =>
    match Record.encodeLines (forms.map .token) with
    | .error fault => reportFailure host job "failed to serialize output: " fault.message
    | .ok lines =>
      host.writeOutput lines.text
      afterWriting (note host job s!"Wrote {lines.count} forms") (return .status 0)

/-- Notes where settings come from, and those among them that are not known. -/
def noteSettings (host : Host m) (job : Job) (settings : Settings) :
    m (Except StreamFault Unit) :=
  match settings.path with
  | none => return .ok ()
  | some path => ExceptT.run do
    ExceptT.mk (note host job s!"Loaded settings from {path}")
    settings.unknownKeys.forM fun key =>
      ExceptT.mk (note host job s!"Warning: unknown setting {key} in {path}")

/-- Finds the settings for a path and the text that it names, and reads it. -/
def readPath (host : Host m) (job : Job) (path : String) : m Exit := do
  let directory ← host.workingDirectory
  let start := if path = standardInput then directory.toString else path
  match ← Settings.load host (some start) with
  | .error fault => failWith host s!"Error in configuration: {fault.message}\n"
  | .ok settings =>
    afterWriting (noteSettings host job settings) do
      match ← readSource host path with
      | .error (.file .nullCharacter) => return .breakdown .nullCharacter
      | .error .tooLong => return .breakdown .noMemory
      | .error fault => failWith host s!"Error: {fault.message path}\n"
      | .ok text =>
        afterWriting (note host job s!"Read {text.length} characters from {path}")
          (parseText host job settings text)

def runJob (host : Host m) (job : Job) : m Exit :=
  match job.input with
  | none => return .breakdown .noPath
  | some path => readPath host job path

/-- Opens the log of a job, and runs it. -/
def runLogged (host : Host m) (job : Job) : m Exit :=
  match job.log with
  | none => runJob host job
  | some path => do
    match ← host.openLog path with
    | .error .nullCharacter => return .breakdown .nullCharacter
    | .error fault => failWith host s!"Error opening log file: {fault.message path}\n"
    | .ok () => runJob host job

/-- Does what is asked for. Help and complaints that are not taken make no difference. -/
def runRequest (host : Host m) : Request → m Exit
  | .help screen => do
    host.writeOutput screen.help
    return .status 0
  | .version => do
    host.writeOutput versionText
    return .status 0
  | .nothing => do
    discard (host.writeDiagnostics Screen.main.help)
    return .status 1
  | .complaint screen fault => do
    discard (host.writeDiagnostics (screen.complaint fault))
    return .status 2
  | .parse job => runLogged host job

def run (host : Host m) (arguments : List String) : m Exit :=
  runRequest host (Request.ofArguments arguments)

end LispReader.CommandLine
