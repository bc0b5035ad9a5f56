import LispReader.Text.Quoted

/-!
Why a file is not opened, and why a text is not written. The wording is that of the operating
system, with its number of the failure and, of a file that is not opened, the path as it was given.
-/

namespace LispReader

/-- Why a file is not opened. -/
inductive FileFault where
  | notFound
  | notDirectory
  | isDirectory
  | nameTooLong
  /-- The path holds a null character, so it is not handed to the system at all. -/
  | nullCharacter
  /-- Some other failure, with its number and its wording. -/
  | other (number : Nat) (wording : String)
  deriving Repr, DecidableEq

namespace FileFault

/-- The number and the wording of a failure of the system. -/
def system? : FileFault → Option (Nat × String)
  | .notFound => some (2, "No such file or directory")
  | .notDirectory => some (20, "Not a directory")
  | .isDirectory => some (21, "Is a directory")
  | .nameTooLong => some (36, "File name too long")
  | .nullCharacter => none
  | .other number wording => some (number, wording)

/-- What is said of a path that is not opened. -/
def message (fault : FileFault) (path : String) : String :=
  match fault.system? with
  | some (number, wording) => s!"[Errno {number}] {wording}: {Text.quote path}"
  | none => "embedded null byte"

end FileFault

/-- Why a text is not written. -/
inductive StreamFault where
  /-- The system does not take it, with the number of the failure and its wording. -/
  | system (number : Nat) (wording : String)
  /-- Something in it has no encoding. -/
  | encoding (wording : String)
  deriving Repr, DecidableEq

def StreamFault.message : StreamFault → String
  | .system number wording => s!"[Errno {number}] {wording}"
  | .encoding wording => wording

end LispReader
