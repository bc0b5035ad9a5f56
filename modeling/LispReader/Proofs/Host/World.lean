import LispReader.Host.World

/-!
What a world answers. An action that asks a world something and leaves it as it is has an answer for
every world, `Asks`, and so have actions that are put together from such ones.
-/

namespace LispReader

namespace FileTree

variable {path : String}

/-- A path may be asked for if it is not empty, not too long and without null characters. -/
theorem checkPath_eq_ok_iff : checkPath path = .ok () ↔
    '\x00' ∉ path.toList ∧ path ≠ "" ∧ path.utf8ByteSize < pathLimit := by
  unfold checkPath
  rw [String.contains_char_eq]
  split
  · simp_all
  · split
    · simp_all
    · split <;> simp_all

/-- The content of a file is found by going along the names of a path. -/
theorem read_of_checkPath (tree : FileTree) (directory : AbsolutePath)
    (hPath : checkPath path = .ok ()) : tree.read directory path =
      (tree.walk (origin directory path) (Path.names path) >>= fun place =>
        match tree.entry? place with
        | some (.file content) => .ok content
        | some .directory => .error .isDirectory
        | none => .error .notFound) := by
  rw [read, resolve, hPath]
  rfl

end FileTree

namespace World

variable {α β : Type}

/-- What comes behind an action goes on from what the action has come to. -/
theorem run_bind_of_run {action : StateM World α} {world after : World} {a : α}
    (h : action.run world = (a, after)) (next : α → StateM World β) :
    (action >>= next).run world = (next a).run after := by
  rw [StateT.run_bind, h]
  rfl

/-- An action gives an answer to every world, and changes none. -/
def Asks (action : StateM World α) (answer : World → α) : Prop :=
  ∀ world, action.run world = (answer world, world)

theorem asks_workingDirectory : Asks host.workingDirectory World.directory :=
  fun _ => rfl

theorem asks_isFile (path : String) : Asks (host.isFile path) fun world => world.isFile path :=
  fun _ => rfl

theorem asks_readFile (path : String) :
    Asks (host.readFile path) fun world => world.tree.read world.directory path :=
  fun _ => rfl

namespace Asks

theorem pure (a : α) : Asks (pure a) fun _ => a :=
  fun _ => rfl

theorem bind {action : StateM World α} {answer : World → α} (h : Asks action answer)
    {next : α → StateM World β} {follow : α → World → β} (hNext : ∀ a, Asks (next a) (follow a)) :
    Asks (action >>= next) fun world => follow (answer world) world := by
  intro world
  rw [run_bind_of_run (h world)]
  exact hNext _ world

/-- What comes behind a question goes on from its answer. -/
theorem run_bind {action : StateM World α} {answer : World → α} (h : Asks action answer)
    (next : α → StateM World β) (world : World) :
    (action >>= next).run world = (next (answer world)).run world :=
  run_bind_of_run (h world) next

/-- Items can be searched by asking for one after the other. -/
theorem findM? {items : List α} {test : α → StateM World Bool} {answer : α → World → Bool}
    (h : ∀ item, Asks (test item) (answer item)) :
    Asks (items.findM? test) fun world => items.find? fun item => answer item world := by
  induction items with
  | nil => exact pure none
  | cons item rest ih =>
      intro world
      rw [List.findM?, (h item).run_bind]
      simp only [List.find?_cons]
      cases answer item world with
      | true => rfl
      | false => exact ih world

end Asks

end World

end LispReader
