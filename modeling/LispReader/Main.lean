import LispReader.CommandLine.Run

/-!
The program on an operating system.
-/

namespace LispReader

/-- The fault for a failure of the system, which numbers its failures with either sign. -/
def FileFault.ofError (error : IO.Error) : FileFault :=
  let numbered (code : UInt32) (wording : String) : FileFault :=
    match code.toInt32.toInt.natAbs with
    | 2 => .notFound
    | 20 => .notDirectory
    | 21 => .isDirectory
    | 36 => .nameTooLong
    | unnamed => .other unnamed wording
  match error with
  | .noFileOrDirectory _ code wording => numbered code wording
  | .inappropriateType _ code wording => numbered code wording
  | .invalidArgument _ code wording => numbered code wording
  | .permissionDenied _ code wording => numbered code wording
  | .resourceExhausted _ code wording => numbered code wording
  | unnamed => .other 5 unnamed.toString

/-- The fault for a text that the system does not take. -/
def StreamFault.ofError (error : IO.Error) : StreamFault :=
  match error with
  | .resourceExhausted _ code wording | .resourceVanished code wording
  | .hardwareFault code wording | .otherError code wording =>
    .system code.toInt32.toInt.natAbs wording
  | unnamed => .system 5 unnamed.toString

/-- Hands a text to the system. -/
def attemptWrite (action : IO Unit) : IO (Except StreamFault Unit) := do
  try return .ok (← action)
  catch error => return .error (.ofError error)

/-- Asks the system something about a path that it takes. -/
def attemptPath {α : Type} (path : String) (action : IO α) : IO (Except FileFault α) := do
  if path.contains '\x00' then return .error .nullCharacter
  try return .ok (← action)
  catch error => return .error (.ofError error)

partial def readStream (stream : IO.FS.Stream) (done : ByteArray) : IO ByteArray := do
  let bytes ← stream.read 65536
  if bytes.isEmpty then return done else readStream stream (done ++ bytes)

/-- The operating system as a host. Directories can be opened, but not read from. -/
def systemHost : Host IO where
  workingDirectory := do
    return AbsolutePath.ofText .root (← IO.currentDir).toString
  isFile path := do
    let found ← attemptPath path do
      let handle ← IO.FS.Handle.mk path .read
      discard (handle.read 1)
    match found with
    | .ok _ => return true
    | .error _ => return false
  readFile path := attemptPath path do
    return (← IO.FS.readBinFile path).toList
  openLog path := attemptPath path do
    discard (IO.FS.Handle.mk path .append)
  appendLog path text := attemptWrite do
    let handle ← IO.FS.Handle.mk path .append
    handle.putStr text
  readInput := do
    return (← readStream (← IO.getStdin) .empty).toList
  writeOutput text := do
    (← IO.getStdout).putStr text
  writeDiagnostics text := attemptWrite do
    (← IO.getStderr).putStr text

end LispReader

def main (arguments : List String) : IO UInt32 := do
  match ← LispReader.CommandLine.run LispReader.systemHost arguments with
  | .status code => return UInt32.ofNat code
  | .breakdown breakdown =>
    IO.eprintln breakdown.message
    return 1
