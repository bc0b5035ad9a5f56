import LispReader.Host.Basic
import LispReader.Reader.Basic
import LispReader.Text.Newline
import LispReader.Text.Utf8
import LispReader.Value.Conversion

/-!
Settings of a reader. They stand in a file of a fixed name, the nearest one on the way up from what
is read. The file holds one association list: every entry is a pair of a symbol and a value.
`ofText` gives the settings of such a file's text, and `load` finds the file first.
-/

namespace LispReader

/-- The name of a settings file. -/
def Settings.fileName : String := "kelp.it"

/-- Why there are no settings. -/
inductive SettingsFault where
  | file (fault : FileFault) (path : String)
  | encoding (fault : Text.Utf8Fault)
  /-- The text holds no forms, but something that fails to be read. -/
  | unreadable (error : ReadError) (path : String)
  | severalForms (path : String)
  | notAssociation (path : String)
  /-- An entry is no pair with a symbol for its key. -/
  | notEntry (entry : Form) (path : String)
  | unsupported (fault : SettingFault)
  | keepComments (typeName : String)
  | maxDepthType (typeName : String)
  | maxDepthRange (value : Int)

/-- The wording of a fault. A number that is too long to be converted is not laid to the file. -/
def SettingsFault.message : SettingsFault → String
  | .file fault path => fault.message path
  | .encoding fault => fault.message
  | .unreadable error path =>
    match error.report? with
    | some report => s!"Failed to parse {path}: {report.text}"
    | none => error.message
  | .severalForms path => s!"{path} must contain a single association list"
  | .notAssociation path => s!"{path} must contain an association list"
  | .notEntry entry path =>
    (Value.token entry).shownIn fun shown => s!"{path}: expected (key . value), got {shown}"
  | .unsupported fault => fault.message
  | .keepComments typeName => s!"keep-comments must be t or nil, got {typeName}"
  | .maxDepthType typeName => s!"max-depth must be an integer, got {typeName}"
  | .maxDepthRange value => s!"max-depth must be positive, got {value}"

/-- The settings of a reader. -/
structure Settings where
  keepComments : Bool := false
  maxDepth : Int := Reader.defaultMaxDepth
  /-- The file that the settings come from. -/
  path : Option AbsolutePath := none
  /-- All entries of the file, each key at its first place and with its last value. -/
  entries : List (String × Value) := []

namespace Settings

def keepCommentsKey : String := "keep-comments"

def maxDepthKey : String := "max-depth"

/-- The keys that are not known, in order. -/
def unknownKeys (settings : Settings) : List String :=
  ((settings.entries.map Prod.fst).filter fun key =>
    key != keepCommentsKey && key != maxDepthKey).mergeSort fun a b => a ≤ b

/-- The key and the value of an entry. -/
def entryOfForm (path : String) (form : Form) : Except SettingsFault (String × Value) :=
  match form with
  | .cons (.symbol (.text key)) tail =>
    match tail.settingValue with
    | .ok value => .ok (key, value)
    | .error fault => .error (.unsupported fault)
  | other => .error (.notEntry other path)

/-- The entries of an association list. -/
def entriesOfForm (path : String) (form : Form) : Except SettingsFault (List (String × Value)) :=
  if form.isProperList then Entries.ofList <$> form.heads.mapM (entryOfForm path)
  else .error (.notAssociation path)

/-- Whether comments are kept, by the entries of a file. -/
def readKeepComments (entries : List (String × Value)) : Except SettingsFault Bool :=
  match Entries.get? entries keepCommentsKey with
  | none => .ok false
  | some (.bool value) => .ok value
  | some other => .error (.keepComments other.typeName)

/-- The greatest number of levels, by the entries of a file. -/
def readMaxDepth (entries : List (String × Value)) : Except SettingsFault Int :=
  match Entries.get? entries maxDepthKey with
  | none => .ok Reader.defaultMaxDepth
  | some (.int value) => if value < 1 then .error (.maxDepthRange value) else .ok value
  | some other => .error (.maxDepthType other.typeName)

/-- The settings that entries make. -/
def ofEntries (path : AbsolutePath) (entries : List (String × Value)) :
    Except SettingsFault Settings := do
  let keepComments ← readKeepComments entries
  let maxDepth ← readMaxDepth entries
  return { keepComments, maxDepth, path := some path, entries }

/-- The settings in the text of a file. A file without forms leaves everything as it is. -/
def ofText (path : AbsolutePath) (text : List Char) : Except SettingsFault Settings :=
  match readText text with
  | .error error => .error (.unreadable error path.toString)
  | .ok [] => .ok { path := some path }
  | .ok [form] => entriesOfForm path.toString form >>= ofEntries path
  | .ok _ => .error (.severalForms path.toString)

/-- The settings in the bytes of a file. -/
def ofBytes (path : AbsolutePath) (bytes : List UInt8) : Except SettingsFault Settings :=
  match Text.decodeUtf8 bytes with
  | .error fault => .error (.encoding fault)
  | .ok text => ofText path (Text.unifyNewlines text)

variable {m : Type → Type} [Monad m]

/-- Where the search for a settings file begins: at the directory of a file, at any other path
itself, and at the working directory if no path is given. -/
def searchStart (host : Host m) (start : Option String) : m AbsolutePath := do
  let directory ← host.workingDirectory
  match start with
  | none => return directory
  | some start =>
    let path := AbsolutePath.ofText directory start
    if ← host.isFile start then return path.parent else return path

/-- The nearest directory with a settings file. -/
def findRoot (host : Host m) (start : Option String) : m (Option AbsolutePath) := do
  let directory ← searchStart host start
  directory.ancestors.findM? fun ancestor => host.isFile (ancestor.child fileName).toString

/-- The settings file for what is to be read: the nearest one, unless the path itself is one by
its name. -/
def findFile (host : Host m) (start : Option String) : m (Option AbsolutePath) := do
  let nearest := do
    let root ← findRoot host start
    return root.map fun directory => directory.child fileName
  match start with
  | some path =>
    if Path.baseName path = fileName then
      return some (AbsolutePath.ofText (← host.workingDirectory) path)
    else nearest
  | none => nearest

/-- The settings for what is to be read. Without a settings file everything stays as it is. -/
def load (host : Host m) (start : Option String) : m (Except SettingsFault Settings) := do
  match ← findFile host start with
  | none => return .ok {}
  | some path =>
    match ← host.readFile path.toString with
    | .error fault => return .error (.file fault path.toString)
    | .ok bytes => return ofBytes path bytes

end Settings

end LispReader
