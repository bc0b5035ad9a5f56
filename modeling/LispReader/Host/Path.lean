/-!
Paths. A path is a text; its names are what stands between the slashes. An absolute path in normal
form has no empty name, no dot and no pair of dots, so going up from it is taking off its last
name. Normal form is reached by the text alone: a pair of dots takes back the name before it,
whatever that name stands for in a file system.
-/

namespace LispReader

namespace Path

/-- The pieces of a text between its slashes. There is one more of them than there are slashes. -/
def splitSlashes : List Char → List (List Char)
  | [] => [[]]
  | '/' :: rest => [] :: splitSlashes rest
  | c :: rest =>
    match splitSlashes rest with
    | [] => [[c]]
    | first :: others => (c :: first) :: others

def names (path : String) : List String :=
  (splitSlashes path.toList).map String.ofList

/-- What stands behind the last slash of a path. -/
def baseName (path : String) : String :=
  (names path).getLast?.getD ""

theorem splitSlashes_ne_nil (text : List Char) : splitSlashes text ≠ [] := by
  cases text with
  | nil => simp [splitSlashes]
  | cons c rest =>
      unfold splitSlashes
      split <;> try simp_all
      split <;> simp

end Path

/-- An absolute path in normal form. -/
structure AbsolutePath where
  /-- Whether the path begins with two slashes. They are kept apart from one, and three or more
  count as one. -/
  doubled : Bool
  names : List String
  deriving Repr, DecidableEq, Inhabited

namespace AbsolutePath

def root : AbsolutePath := ⟨false, []⟩

def toString (path : AbsolutePath) : String :=
  (if path.doubled then "//" else "/") ++ "/".intercalate path.names

instance : ToString AbsolutePath := ⟨toString⟩

/-- Goes along one name of a path that need not be in normal form. Going up from the root stays
there. -/
def step (names : List String) (name : String) : List String :=
  if name = "" ∨ name = "." then names
  else if name = ".." then names.dropLast
  else names ++ [name]

/-- The normal form of a path, taken from a directory if it does not begin with a slash. -/
def ofText (directory : AbsolutePath) (path : String) : AbsolutePath :=
  let chars := path.toList
  if chars.head? = some '/' then
    ⟨chars[1]? = some '/' ∧ chars[2]? ≠ some '/', (Path.names path).foldl step []⟩
  else ⟨directory.doubled, (Path.names path).foldl step directory.names⟩

def child (path : AbsolutePath) (name : String) : AbsolutePath :=
  { path with names := path.names ++ [name] }

/-- A path without its last name. The path without names is its own parent. -/
def parent (path : AbsolutePath) : AbsolutePath :=
  { path with names := path.names.dropLast }

def ancestors (path : AbsolutePath) : List AbsolutePath :=
  (List.range (path.names.length + 1)).reverse.map fun count =>
    { path with names := path.names.take count }

end AbsolutePath

end LispReader
