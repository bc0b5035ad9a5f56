import LispReader.Host.Fault
import LispReader.Host.Path

/-!
The host of the program: what it may ask of its surroundings. The program is written against this
interface, so that it runs alike on an operating system and on a world of values.
-/

namespace LispReader

/-- What a program may ask of its surroundings, each effect in the monad `m`. Paths are texts, as
the user gives them; they may be relative to the working directory. -/
structure Host (m : Type → Type) where
  workingDirectory : m AbsolutePath
  isFile : String → m Bool
  readFile : String → m (Except FileFault (List UInt8))
  /-- Makes sure that a path leads to a file that can be appended to, an empty new one if there
  is none. -/
  openLog : String → m (Except FileFault Unit)
  /-- Appends a text to a file. It need not be taken, and part of it may be in the file even so. -/
  appendLog : String → String → m (Except StreamFault Unit)
  readInput : m (List UInt8)
  writeOutput : String → m Unit
  writeDiagnostics : String → m (Except StreamFault Unit)

end LispReader
