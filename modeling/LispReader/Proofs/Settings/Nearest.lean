import Mathlib.Data.PFun
import LispReader.Proofs.Host.Walk
import LispReader.Proofs.Settings.Apart

/-!
The search for a settings file, directory by directory. It begins at a file's own directory, or else
at the path itself, and goes up in the text of the path until there is a settings file or the path
is its own directory. It always ends: with the nearest directory that holds a regular settings
file, up to the root, or with none if no directory on the way does.
-/

namespace LispReader

namespace World

variable (world : World)

/-- One turn of the search: it is over where there is a settings file, and where the way up ends. -/
def stepUp (current : String) : Part (Option String ⊕ String) :=
  .some <|
    if world.isFile (Path.join current Settings.fileName) then .inl (some current)
    else if Path.dirname current = current then .inl none
    else .inr (Path.dirname current)

/-- The search from a directory on. -/
def searchUp : String →. Option String :=
  PFun.fix world.stepUp

/-- Where the search begins, as a text. -/
def startText : Option String → String
  | none => world.directory.toString
  | some start =>
    let path := (AbsolutePath.ofText world.directory start).toString
    if world.isFile start then Path.dirname path else path

/-- A directory has a regular settings file in it, to which the system finds its way: the path is
not too long, no name in it is, and there are directories only above the file. -/
structure HoldsFile (directory : AbsolutePath) : Prop where
  file : ∃ content,
    world.tree.entry? (directory.names ++ [Settings.fileName]) = some (.file content)
  directories : ∀ above, above <+: directory.names → world.tree.entry? above = some .directory
  path : FileTree.checkPath (directory.child Settings.fileName).toString = .ok ()
  names : ∀ name ∈ directory.names, name.utf8ByteSize ≤ FileTree.nameLimit

variable {world}

theorem read_child_eq_ok_iff {path : AbsolutePath} (hNames : ∀ name ∈ path.names, IsName name)
    {last : String} (hLast : IsName last) {content : List UInt8} :
    world.tree.read world.directory (path.child last).toString = .ok content ↔
      FileTree.checkPath (path.child last).toString = .ok () ∧
      (∀ above, above <+: path.names → world.tree.entry? above = some .directory) ∧
      (∀ name ∈ path.names ++ [last], name.utf8ByteSize ≤ FileTree.nameLimit) ∧
      world.tree.entry? (path.names ++ [last]) = some (.file content) := by
  constructor
  · intro h
    obtain ⟨place, hPlace, hFile⟩ := FileTree.exists_of_bind_eq_ok h
    obtain ⟨_, hPath, hWalk⟩ := FileTree.exists_of_bind_eq_ok hPlace
    rw [FileTree.origin_toString] at hWalk
    obtain ⟨hAbove, hSizes, rfl⟩ := (FileTree.walk_child_eq_ok_iff hNames hLast).mp hWalk
    refine ⟨hPath, hAbove, hSizes, ?_⟩
    split at hFile <;> cases hFile
    assumption
  · rintro ⟨hPath, hAbove, hSizes, hFile⟩
    have hWalk := (FileTree.walk_child_eq_ok_iff hNames hLast).mpr ⟨hAbove, hSizes, rfl⟩
    rw [FileTree.read_of_checkPath _ _ hPath, FileTree.origin_toString, hWalk]
    simp only [bind, Except.bind, hFile]

/-- The system finds a settings file in a directory if there is one to which it finds its way. -/
theorem holdsSettings_iff {directory : AbsolutePath}
    (hNames : ∀ name ∈ directory.names, IsName name) :
    world.holdsSettings directory = true ↔ world.HoldsFile directory := by
  rw [holdsSettings, isFile_iff]
  simp only [read_child_eq_ok_iff hNames isName_fileName, List.forall_mem_append,
    List.forall_mem_singleton]
  constructor
  · rintro ⟨content, hPath, hAbove, ⟨hSizes, -⟩, hFile⟩
    exact ⟨⟨content, hFile⟩, hAbove, hPath, hSizes⟩
  · rintro ⟨⟨content, hFile⟩, hAbove, hPath, hSizes⟩
    exact ⟨content, hPath, hAbove, ⟨hSizes, by decide⟩, hFile⟩

theorem searchUp_of_isFile {current : String}
    (hFile : world.isFile (Path.join current Settings.fileName) = true) :
    world.searchUp current = .some (some current) := by
  apply Part.eq_some_iff.mpr
  apply PFun.fix_stop
  rw [stepUp, if_pos hFile]
  exact Part.mem_some _

theorem searchUp_of_top {current : String}
    (hFile : ¬ world.isFile (Path.join current Settings.fileName) = true)
    (hTop : Path.dirname current = current) : world.searchUp current = .some none := by
  apply Part.eq_some_iff.mpr
  apply PFun.fix_stop
  rw [stepUp, if_neg hFile, if_pos hTop]
  exact Part.mem_some _

theorem searchUp_of_below {current : String}
    (hFile : ¬ world.isFile (Path.join current Settings.fileName) = true)
    (hBelow : Path.dirname current ≠ current) :
    world.searchUp current = world.searchUp (Path.dirname current) := by
  apply PFun.fix_fwd_eq
  rw [stepUp, if_neg hFile, if_neg hBelow]
  exact Part.mem_some _

/-- From a path in normal form on, the search goes through the path and all that is above it. -/
theorem searchUp_toString {path : AbsolutePath} (hNames : ∀ name ∈ path.names, IsName name) :
    world.searchUp path.toString =
      .some ((path.ancestors.find? world.holdsSettings).map AbsolutePath.toString) := by
  have hFile : world.isFile (Path.join path.toString Settings.fileName) =
      world.holdsSettings path := by
    rw [AbsolutePath.join_toString hNames isName_fileName, holdsSettings]
  by_cases hHolds : world.holdsSettings path = true
  · rw [searchUp_of_isFile (hFile.trans hHolds), AbsolutePath.find?_ancestors_of_holds hHolds]
    rfl
  · have hNoFile := hHolds
    rw [← hFile] at hNoFile
    have hTop := AbsolutePath.dirname_toString_eq_iff hNames
    by_cases hNone : path.names = []
    · rw [searchUp_of_top hNoFile (hTop.mpr hNone), AbsolutePath.ancestors_of_nil hNone,
        List.find?_cons_of_neg hHolds]
      rfl
    · have := AbsolutePath.length_parent_lt hNone
      rw [searchUp_of_below hNoFile (hTop.not.mpr hNone), AbsolutePath.dirname_toString hNames,
        AbsolutePath.ancestors_eq_cons hNone, List.find?_cons_of_neg hHolds]
      exact searchUp_toString (AbsolutePath.forall_mem_parent hNames)
termination_by path.names.length

section

variable (hDirectory : ∀ name ∈ world.directory.names, IsName name)
include hDirectory

theorem isName_searchStart (start : Option String) :
    ∀ name ∈ (world.searchStart start).names, IsName name := by
  cases start with
  | none => exact hDirectory
  | some start =>
      have hPath := AbsolutePath.isName_ofText hDirectory start
      unfold searchStart
      dsimp only
      split
      · exact AbsolutePath.forall_mem_parent hPath
      · exact hPath

/-- The text where the search begins is that of a path in normal form. -/
theorem startText_eq (start : Option String) :
    world.startText start = (world.searchStart start).toString := by
  cases start with
  | none => rfl
  | some start =>
      have hPath := AbsolutePath.isName_ofText hDirectory start
      unfold startText searchStart
      dsimp only
      split
      · exact AbsolutePath.dirname_toString hPath
      · rfl

/-- The search finds the nearest directory that holds a regular settings file, in whatever world and
wherever it begins, and changes nothing. The turns of the search come to an end with the same
directory. If no directory up to the top holds such a file, there is none, and something else of
that name makes no difference. -/
theorem findRoot_nearest (start : Option String) :
    ∃ found, (Settings.findRoot host start).run world = (found, world) ∧
      world.searchUp (world.startText start) = .some (found.map AbsolutePath.toString) ∧
      (∀ root, found = some root ↔
        AbsolutePath.NearestWith world.HoldsFile (world.searchStart start) root) ∧
      (found = none ↔ ∀ count,
        ¬ world.HoldsFile (AbsolutePath.parent^[count] (world.searchStart start))) ∧
      (∃ height, (AbsolutePath.parent^[height] (world.searchStart start)).names = []) ∧
      ∀ root, world.tree.entry? (root.names ++ [Settings.fileName]) = some .directory →
        found ≠ some root := by
  have hNames := isName_searchStart hDirectory start
  have hHolds (count : Nat) :
      world.holdsSettings (AbsolutePath.parent^[count] (world.searchStart start)) = true ↔
        world.HoldsFile (AbsolutePath.parent^[count] (world.searchStart start)) :=
    holdsSettings_iff (AbsolutePath.forall_mem_iterate_parent hNames count)
  have hFound (root : AbsolutePath) :
      (world.searchStart start).ancestors.find? world.holdsSettings = some root ↔
        AbsolutePath.NearestWith world.HoldsFile (world.searchStart start) root := by
    rw [AbsolutePath.find?_ancestors_eq_some_iff, AbsolutePath.nearestWith_congr hHolds]
  refine ⟨(world.searchStart start).ancestors.find? world.holdsSettings,
    Settings.asks_findRoot start world, ?_, hFound, ?_,
    ⟨_, AbsolutePath.names_iterate_parent (world.searchStart start)⟩, ?_⟩
  · rw [startText_eq hDirectory, searchUp_toString hNames]
  · rw [AbsolutePath.find?_ancestors_eq_none_iff]
    exact forall_congr' fun count => not_congr (hHolds count)
  · intro root hEntry hRoot
    obtain ⟨count, rfl, hFile, -⟩ := (hFound root).mp hRoot
    obtain ⟨content, hContent⟩ := hFile.file
    rw [hEntry] at hContent
    cases hContent

end

/-- From a file that is there, past a directory of the name of settings files, to the file above. -/
theorem findRoot_nearest_past_directory :
    let world : World :=
      { tree := ⟨[(["a", "kelp.it"], .file []), (["a", "b", "kelp.it"], .directory),
          (["a", "b", "c"], .file [])]⟩
        directory := ⟨false, ["a", "b"]⟩ }
    let start : Option String := some "../b/./c"
    (∀ name ∈ world.directory.names, IsName name) ∧
      (Settings.findRoot host start).run world = (some ⟨false, ["a"]⟩, world) ∧
      world.searchUp (world.startText start) = .some (some "/a") := by
  intro world start
  have hFirst : IsName "a" := ⟨by decide, by decide, by decide, by decide⟩
  have hSecond : IsName "b" := ⟨by decide, by decide, by decide, by decide⟩
  have hDirectory : ∀ name ∈ world.directory.names, IsName name := by
    simp [world, hFirst, hSecond]
  have hStart : world.searchStart start = ⟨false, ["a", "b"]⟩ := by
    have hFile : world.isFile "../b/./c" = true := by
      refine isFile_iff.mpr ⟨[], ?_⟩
      rw [FileTree.read_of_checkPath _ _ (FileTree.checkPath_eq_ok_iff.2 (by decide))]
      decide +kernel
    have hPath : AbsolutePath.ofText world.directory "../b/./c" = ⟨false, ["a", "b", "c"]⟩ := by
      decide +kernel
    unfold searchStart
    dsimp only [start]
    rw [if_pos hFile, hPath]
    rfl
  have hAbove : world.HoldsFile ⟨false, ["a"]⟩ := by
    refine ⟨⟨[], by decide +kernel⟩, fun above hPrefix => ?_, ?_, by decide⟩
    · obtain rfl | ⟨_, rfl, hEmpty⟩ := List.prefix_cons_iff.mp hPrefix
      · decide +kernel
      · rw [List.prefix_nil.mp hEmpty]
        decide +kernel
    · exact FileTree.checkPath_eq_ok_iff.2 (by decide)
  have hHere : ¬ world.HoldsFile ⟨false, ["a", "b"]⟩ := by
    rintro ⟨⟨content, hContent⟩, -⟩
    have hEntry : world.tree.entry? ["a", "b", "kelp.it"] = some .directory := by decide +kernel
    cases hEntry.symm.trans hContent
  obtain ⟨found, hRun, hSearch, hNearest, -⟩ := findRoot_nearest hDirectory start
  have hFound : found = some ⟨false, ["a"]⟩ := by
    rw [hNearest, hStart, AbsolutePath.nearestWith_parent hHere]
    exact (AbsolutePath.nearestWith_of_holds hAbove).mpr rfl
  rw [hFound] at hRun hSearch
  refine ⟨hDirectory, hRun, hSearch.trans ?_⟩
  have hText : (⟨false, ["a"]⟩ : AbsolutePath).toString = "/a" := by decide
  rw [Option.map_some, hText]

end World

end LispReader
