import LispReader.Proofs.Host.Tree
import LispReader.Proofs.Settings.Load

/-!
Settings and a file that has no part in them. A settings file is found by its name, so a change to a
file of another name leaves the settings as they are, even if the file has not been there before.
-/

namespace LispReader

namespace World

/-- Worlds that differ in one file at most, and in what has been written. -/
structure AgreeBut (place : List String) (world other : World) : Prop where
  tree : FileTree.AgreeBut place world.tree other.tree
  directory : other.directory = world.directory
  input : other.input = world.input

end World

theorem isName_fileName : IsName Settings.fileName :=
  ⟨by decide, by decide, by decide, by decide⟩

theorem names_fileName : Path.names Settings.fileName = [Settings.fileName] :=
  Path.names_of_notMem isName_fileName.noSlash

namespace AbsolutePath

/-- A path that ends in a name has a normal form that does. -/
theorem exists_child_of_baseName (directory : AbsolutePath) {path name : String}
    (hBase : Path.baseName path = name) (hName : IsName name) :
    ∃ parent : AbsolutePath, ofText directory path = parent.child name := by
  have hStep (start : List String) : (Path.names path).foldl step start =
      (Path.names path).dropLast.foldl step start ++ [name] := by
    rw [← Path.dropLast_names_append path, List.foldl_append, List.foldl_cons, List.foldl_nil,
      List.dropLast_concat, hBase, step_of_isName hName]
  unfold ofText
  simp only [hStep]
  split
  · exact ⟨⟨_, (Path.names path).dropLast.foldl step []⟩, rfl⟩
  · exact ⟨⟨_, (Path.names path).dropLast.foldl step directory.names⟩, rfl⟩

theorem head?_toString (path : AbsolutePath) : path.toString.toList.head? = some '/' := by
  obtain ⟨doubled, names⟩ := path
  cases doubled <;> simp [toString]

end AbsolutePath

namespace FileTree

variable {tree : FileTree} {directory : AbsolutePath} {place : List String}

/-- A path to a settings file leads to a place of the name. -/
theorem resolve_child_ne (hPlace : place.getLast? ≠ some Settings.fileName)
    (ancestor : AbsolutePath) :
    tree.resolve directory (ancestor.child Settings.fileName).toString ≠ .ok place := by
  intro h
  obtain ⟨_, -, hWalk⟩ := exists_of_bind_eq_ok h
  obtain ⟨front, hText, -⟩ := ancestor.exists_toString_child Settings.fileName
  rw [hText, Path.names_append, names_fileName] at hWalk
  apply hPlace
  rw [eq_foldl_of_walk hWalk, List.foldl_append, List.foldl_cons, List.foldl_nil,
    AbsolutePath.step_of_isName isName_fileName, List.getLast?_concat]

theorem origin_toString (path : AbsolutePath) : origin directory path.toString = [] := by
  rw [origin, if_pos path.head?_toString]

/-- A settings file stands in a directory. -/
theorem isDirectory_of_resolve_child {ancestor : AbsolutePath}
    (hNames : ∀ name ∈ ancestor.names, IsName name)
    (h : tree.resolve directory (ancestor.child Settings.fileName).toString = .ok place) :
    tree.entry? ancestor.names = some .directory := by
  obtain ⟨_, -, hWalk⟩ := exists_of_bind_eq_ok h
  obtain ⟨front, hText, hFront⟩ := ancestor.exists_toString_child Settings.fileName
  rw [origin_toString, hText, Path.names_append, names_fileName, walk_concat] at hWalk
  obtain ⟨at', hAt, hLast⟩ := exists_of_bind_eq_ok hWalk
  obtain ⟨⟨⟩, hDirectory, -⟩ := exists_of_bind_eq_ok hLast
  have hSame : at' = ancestor.names := by
    rw [eq_foldl_of_walk hAt, hFront]
    exact AbsolutePath.foldl_step_names_toString ancestor.doubled hNames
  exact hSame ▸ checkDirectory_eq_ok_iff.mp hDirectory

end FileTree

namespace World

variable {world other : World} {place : List String} {start : String}

theorem isFile_iff {path : String} :
    world.isFile path = true ↔ ∃ content, world.tree.read world.directory path = .ok content := by
  unfold isFile
  cases world.tree.read world.directory path with
  | ok content => exact iff_of_true rfl ⟨content, rfl⟩
  | error fault => exact iff_of_false Bool.false_ne_true nofun

theorem AgreeBut.read (h : AgreeBut place world other) {path : String}
    (hPath : world.tree.resolve world.directory path ≠ .ok place) :
    FileTree.Alike (world.tree.read world.directory path)
      (other.tree.read other.directory path) := by
  rw [h.directory]
  exact h.tree.read hPath

theorem AgreeBut.isFile (h : AgreeBut place world other) {path : String}
    (hPath : world.tree.resolve world.directory path ≠ .ok place) :
    other.isFile path = world.isFile path := by
  rw [Bool.eq_iff_iff, isFile_iff, isFile_iff]
  exact exists_congr fun content => (h.read hPath).eq_ok_iff.symm

/-- The search for settings from a place that is no directory begins above it, whether there is a
file at the place or not. -/
theorem find?_of_resolve (hAbsolute : start.toList.head? = some '/')
    (hStart : world.tree.resolve world.directory start = .ok place) (hNotRoot : place ≠ [])
    (hPlace : world.tree.entry? place ≠ some .directory) :
    (world.searchStart (some start)).ancestors.find? world.holdsSettings =
      (AbsolutePath.ofText world.directory start).parent.ancestors.find? world.holdsSettings := by
  obtain ⟨_, -, hWalk⟩ := FileTree.exists_of_bind_eq_ok hStart
  have hText : (AbsolutePath.ofText world.directory start).names =
      (Path.names start).foldl AbsolutePath.step [] := by
    rw [AbsolutePath.ofText, if_pos hAbsolute]
  have hNames : (AbsolutePath.ofText world.directory start).names = place := by
    rw [hText, FileTree.eq_foldl_of_walk hWalk, FileTree.origin, if_pos hAbsolute]
  have hNone : world.holdsSettings (AbsolutePath.ofText world.directory start) = false := by
    rw [← Bool.not_eq_true, holdsSettings, isFile_iff]
    rintro ⟨content, hRead⟩
    obtain ⟨at', hAt, -⟩ := FileTree.exists_of_bind_eq_ok hRead
    apply hPlace
    rw [← hNames]
    apply FileTree.isDirectory_of_resolve_child _ hAt
    rw [hText]
    exact AbsolutePath.isName_foldl_step (fun _ => Path.notMem_of_mem_names) (List.forall_mem_nil _)
  unfold searchStart
  dsimp only
  split
  · rfl
  · rw [AbsolutePath.ancestors_eq_cons (hNames ▸ hNotRoot), List.find?_cons, hNone]

/-- A settings file has the name of one. -/
theorem exists_of_settingsFile? {file : AbsolutePath}
    (h : world.settingsFile? (some start) = some file) :
    ∃ ancestor : AbsolutePath, file = ancestor.child Settings.fileName := by
  unfold settingsFile? at h
  dsimp only at h
  split at h
  · next hBase =>
      obtain ⟨parent, hChild⟩ :=
        AbsolutePath.exists_child_of_baseName world.directory hBase isName_fileName
      exact ⟨parent, (Option.some.inj h).symm.trans hChild⟩
  · obtain ⟨ancestor, -, hFile⟩ := Option.map_eq_some_iff.mp h
    exact ⟨ancestor, hFile.symm⟩

section

variable (h : AgreeBut place world other) (hPlace : place.getLast? ≠ some Settings.fileName)
  (hStart : world.tree.resolve world.directory start = .ok place → start.toList.head? = some '/')
include h hPlace

theorem AgreeBut.holdsSettings : other.holdsSettings = world.holdsSettings := by
  funext directory
  exact h.isFile (FileTree.resolve_child_ne hPlace directory)

include hStart

theorem AgreeBut.settingsFile? (hNotRoot : place ≠ []) :
    other.settingsFile? (some start) = world.settingsFile? (some start) := by
  have hFind : (other.searchStart (some start)).ancestors.find? other.holdsSettings =
      (world.searchStart (some start)).ancestors.find? world.holdsSettings := by
    by_cases hAt : world.tree.resolve world.directory start = .ok place
    · have hAt' : other.tree.resolve other.directory start = .ok place := by
        rw [h.directory]
        exact (h.tree.resolve _ _).eq_ok_iff.mp hAt
      rw [find?_of_resolve (hStart hAt) hAt hNotRoot h.tree.left,
        find?_of_resolve (hStart hAt) hAt' hNotRoot h.tree.right, h.holdsSettings hPlace,
        h.directory]
    · rw [searchStart, searchStart, h.isFile hAt, h.directory, h.holdsSettings hPlace]
  unfold World.settingsFile?
  rw [hFind, h.directory]

/-- A file of another name has no part in the settings, except that there may be different reasons
for there being none. -/
theorem AgreeBut.settings_eq_ok_iff (hNotRoot : place ≠ []) {settings : Settings} :
    world.settings (some start) = .ok settings ↔ other.settings (some start) = .ok settings := by
  unfold World.settings
  rw [h.settingsFile? hPlace hStart hNotRoot]
  cases hFile : world.settingsFile? (some start) with
  | none => exact Iff.rfl
  | some file =>
      obtain ⟨ancestor, rfl⟩ := exists_of_settingsFile? hFile
      have hRead := h.read (FileTree.resolve_child_ne hPlace ancestor)
      dsimp only
      generalize world.tree.read _ _ = answer at hRead
      generalize other.tree.read _ _ = answer' at hRead
      cases hRead with
      | same => exact Iff.rfl
      | absent => exact iff_of_false nofun nofun

end

end World

end LispReader
