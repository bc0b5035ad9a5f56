import LispReader.Host.Basic
import LispReader.Text.Utf8

/-!
A world of values: a tree of files, a working directory, an input and the texts written so far. It
is a host, so what a program does to its surroundings can be computed and spoken of.

Unlike normal forms, the walk along a path asks at every name whether what has been reached is a
directory.
-/

namespace LispReader

/-- What a place in a tree of files holds. -/
inductive FileEntry where
  | file (content : List UInt8)
  | directory
  deriving Repr, DecidableEq

/-- A tree of files. Places are lists of names; a place above one that holds something is a
directory without being listed. -/
structure FileTree where
  entries : List (List String × FileEntry)
  deriving Repr

namespace FileTree

def entry? (tree : FileTree) (place : List String) : Option FileEntry :=
  match tree.entries.lookup place with
  | some entry => some entry
  | none =>
    if place.isEmpty || tree.entries.any (fun entry => place.isPrefixOf entry.1) then
      some .directory
    else none

def put (tree : FileTree) (place : List String) (content : List UInt8) : FileTree :=
  ⟨(place, .file content) :: tree.entries.filter fun entry => entry.1 != place⟩

/-- The greatest number of bytes in a name. -/
def nameLimit : Nat := 255

/-- The least number of bytes of a path that is too long. -/
def pathLimit : Nat := 4096

/-- Makes sure that a place is a directory. -/
def checkDirectory (tree : FileTree) (place : List String) : Except FileFault Unit :=
  match tree.entry? place with
  | some .directory => .ok ()
  | some (.file _) => .error .notDirectory
  | none => .error .notFound

/-- Walks along names from a place. Every name but the last has to lead to a directory. -/
def walk (tree : FileTree) (place : List String) : List String → Except FileFault (List String)
  | [] => .ok place
  | name :: rest => do
    tree.checkDirectory place
    if nameLimit < name.utf8ByteSize then throw .nameTooLong
    tree.walk (AbsolutePath.step place name) rest

def checkPath (path : String) : Except FileFault Unit :=
  if path.contains '\x00' then .error .nullCharacter
  else if path = "" then .error .notFound
  else if pathLimit ≤ path.utf8ByteSize then .error .nameTooLong
  else .ok ()

/-- Where the walk along a path begins. -/
def origin (directory : AbsolutePath) (path : String) : List String :=
  if path.toList.head? = some '/' then [] else directory.names

/-- The place that a path leads to. -/
def resolve (tree : FileTree) (directory : AbsolutePath) (path : String) :
    Except FileFault (List String) := do
  checkPath path
  tree.walk (origin directory path) (Path.names path)

/-- The content of the file that a path leads to. -/
def read (tree : FileTree) (directory : AbsolutePath) (path : String) :
    Except FileFault (List UInt8) := do
  match tree.entry? (← tree.resolve directory path) with
  | some (.file content) => return content
  | some .directory => throw .isDirectory
  | none => throw .notFound

/-- The place of the file that a path leads to, for appending; there need not be one yet. A path
whose last name is empty or made of dots can only lead to a directory. -/
def resolveForAppending (tree : FileTree) (directory : AbsolutePath) (path : String) :
    Except FileFault (List String) := do
  checkPath path
  let names := Path.names path
  let kept := (names.reverse.dropWhile fun name => name == "").reverse
  let place ← tree.walk (origin directory path) kept.dropLast
  match kept.getLast? with
  | none => throw .isDirectory
  | some last =>
    tree.checkDirectory place
    if last = "." ∨ last = ".." ∨ kept.length ≠ names.length then throw .isDirectory
    if nameLimit < last.utf8ByteSize then throw .nameTooLong
    match tree.entry? (place ++ [last]) with
    | some .directory => throw .isDirectory
    | _ => return place ++ [last]

end FileTree

/-- A state of the surroundings. Texts that are written need not be taken, which may depend on what
has been written before. -/
structure World where
  tree : FileTree
  directory : AbsolutePath
  input : List UInt8 := []
  output : String := ""
  diagnostics : String := ""
  /-- Why a file at a place with a content does not take a text, and how many bytes of the text it
  takes even so. -/
  fileFault? : List String → List UInt8 → String → Option (StreamFault × Nat) :=
    fun _ _ _ => none
  /-- Why a text is not taken for a diagnostic, behind those before it. -/
  diagnosticsFault? : String → String → Option StreamFault := fun _ _ => none

namespace World

def openLog (world : World) (path : String) : Except FileFault Unit × World :=
  match world.tree.resolveForAppending world.directory path with
  | .error fault => (.error fault, world)
  | .ok place =>
    match world.tree.entry? place with
    | some _ => (.ok (), world)
    | none => (.ok (), { world with tree := world.tree.put place [] })

/-- Appends a text to a file. Nothing happens if the path leads to none. -/
def appendLog (world : World) (path : String) (text : String) : Except StreamFault Unit × World :=
  match world.tree.resolveForAppending world.directory path with
  | .error _ => (.ok (), world)
  | .ok place =>
    match world.tree.entry? place with
    | some (.file content) =>
      let append (bytes : List UInt8) : World :=
        { world with tree := world.tree.put place (content ++ bytes) }
      match world.fileFault? place content text with
      | none => (.ok (), append (Text.encodeUtf8 text))
      | some (fault, count) => (.error fault, append ((Text.encodeUtf8 text).take count))
    | _ => (.ok (), world)

def writeDiagnostics (world : World) (text : String) : Except StreamFault Unit × World :=
  match world.diagnosticsFault? world.diagnostics text with
  | none => (.ok (), { world with diagnostics := world.diagnostics ++ text })
  | some fault => (.error fault, world)

def isFile (world : World) (path : String) : Bool :=
  match world.tree.read world.directory path with
  | .ok _ => true
  | .error _ => false

/-- The world as a host. Reading the input empties it. -/
def host : Host (StateM World) where
  workingDirectory := return (← get).directory
  isFile path := return (← get).isFile path
  readFile path := do
    let world ← get
    return world.tree.read world.directory path
  openLog path := modifyGet fun world => world.openLog path
  appendLog path text := modifyGet fun world => world.appendLog path text
  readInput := modifyGet fun world => (world.input, { world with input := [] })
  writeOutput text := modify fun world => { world with output := world.output ++ text }
  writeDiagnostics text := modifyGet fun world => world.writeDiagnostics text

end World

end LispReader
