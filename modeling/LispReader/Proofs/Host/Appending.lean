import LispReader.Proofs.Host.Tree

/-!
Appending to a file. The path of a file that is appended to leads to the same place afterwards, so
whatever is appended later goes to the same file, and its content only grows.
-/

namespace LispReader

namespace FileTree

/-- A path can be appended to, as its last name in a directory. -/
structure Appendable (tree : FileTree) (directory : AbsolutePath) (path : String)
    (parent : List String) : Prop where
  isPath : checkPath path = .ok ()
  walks : tree.walk (origin directory path) (Path.names path).dropLast = .ok parent
  isDirectory : tree.entry? parent = some .directory
  isName : Path.baseName path ∉ ["", ".", ".."]
  short : (Path.baseName path).utf8ByteSize ≤ nameLimit
  noDirectory : tree.entry? (parent ++ [Path.baseName path]) ≠ some .directory

/-- The names of a path without the empty ones at its end. -/
def keptNames (path : String) : List String :=
  ((Path.names path).reverse.dropWhile fun name => name == "").reverse

theorem keptNames_eq {path : String} (h : Path.baseName path ≠ "") :
    keptNames path = Path.names path := by
  rw [keptNames, ← Path.dropLast_names_append path, List.reverse_append, List.reverse_singleton,
    List.singleton_append, List.dropWhile_cons_of_neg (by simpa using h), List.reverse_cons,
    List.reverse_reverse]

theorem length_keptNames_lt {path : String} (h : Path.baseName path = "") :
    (keptNames path).length < (Path.names path).length := by
  rw [keptNames, ← Path.dropLast_names_append path, List.reverse_append, List.reverse_singleton,
    List.singleton_append, h, List.dropWhile_cons_of_pos rfl, List.length_reverse,
    List.length_append, List.length_singleton, Nat.lt_succ_iff]
  exact Nat.le_trans (List.dropWhile_sublist _).length_le (Nat.le_of_eq List.length_reverse)

theorem getLast?_names (path : String) :
    (Path.names path).getLast? = some (Path.baseName path) := by
  rw [← Path.dropLast_names_append path, List.getLast?_concat]

/-- Where a path has a last name, its place is that name in the directory that the other names lead
to, unless it is a directory itself. -/
theorem resolveForAppending_of_isName {tree : FileTree} {directory : AbsolutePath} {path : String}
    (hPath : checkPath path = .ok ()) (hName : Path.baseName path ∉ ["", ".", ".."]) :
    tree.resolveForAppending directory path =
      (do
        let parent ← tree.walk (origin directory path) (Path.names path).dropLast
        tree.checkDirectory parent
        if nameLimit < (Path.baseName path).utf8ByteSize then throw .nameTooLong
        match tree.entry? (parent ++ [Path.baseName path]) with
        | some .directory => throw .isDirectory
        | _ => return parent ++ [Path.baseName path]) := by
  have hNot : ¬ (Path.baseName path = "." ∨ Path.baseName path = ".." ∨
      (Path.names path).length ≠ (Path.names path).length) := by
    simp_all
  have hKept : ((Path.names path).reverse.dropWhile fun name => name == "").reverse =
      Path.names path := keptNames_eq (by simp_all)
  unfold resolveForAppending
  simp only [hKept, getLast?_names, if_neg hNot, hPath]
  rfl

/-- A path without a last name is not appended to. -/
theorem isName_of_resolveForAppending {tree : FileTree} {directory : AbsolutePath} {path : String}
    {place : List String} (h : tree.resolveForAppending directory path = .ok place) :
    Path.baseName path ∉ ["", ".", ".."] := by
  intro hName
  have hNot {last : String} (hLast : (keptNames path).getLast? = some last) :
      last = "." ∨ last = ".." ∨ (keptNames path).length ≠ (Path.names path).length := by
    by_cases hEmpty : Path.baseName path = ""
    · exact .inr (.inr (Nat.ne_of_lt (length_keptNames_lt hEmpty)))
    · rw [keptNames_eq hEmpty, getLast?_names, Option.some.injEq] at hLast
      subst hLast
      have hDots : Path.baseName path = "." ∨ Path.baseName path = ".." := by
        simpa [hEmpty] using hName
      exact hDots.imp_right .inl
  obtain ⟨_, -, h⟩ := exists_of_bind_eq_ok h
  obtain ⟨parent, -, h⟩ := exists_of_bind_eq_ok h
  split at h
  · cases h
  · next last hLast =>
      obtain ⟨_, -, h⟩ := exists_of_bind_eq_ok h
      dsimp only at h
      split at h
      · cases h
      · next hDirectory => exact hDirectory (hNot hLast)

theorem resolveForAppending_eq_ok_iff {tree : FileTree} {directory : AbsolutePath} {path : String}
    {place : List String} : tree.resolveForAppending directory path = .ok place ↔
      ∃ parent, tree.Appendable directory path parent ∧
        place = parent ++ [Path.baseName path] := by
  constructor
  · intro h
    have hName := isName_of_resolveForAppending h
    obtain ⟨⟨⟩, hPath, -⟩ := exists_of_bind_eq_ok h
    rw [resolveForAppending_of_isName hPath hName] at h
    obtain ⟨parent, hWalk, h⟩ := exists_of_bind_eq_ok h
    obtain ⟨⟨⟩, hParent, h⟩ := exists_of_bind_eq_ok h
    by_cases hLong : nameLimit < (Path.baseName path).utf8ByteSize
    · rw [if_pos hLong] at h
      cases h
    · rw [if_neg hLong] at h
      refine ⟨parent, ⟨hPath, hWalk, checkDirectory_eq_ok_iff.mp hParent, hName,
        Nat.le_of_not_lt hLong, ?_⟩, ?_⟩
      · intro hPlace
        rw [hPlace] at h
        cases h
      · split at h <;> cases h
        rfl
  · rintro ⟨parent, ⟨hPath, hWalk, hParent, hName, hShort, hPlace⟩, rfl⟩
    rw [resolveForAppending_of_isName hPath hName, hWalk]
    change (tree.checkDirectory parent >>= _) = _
    rw [checkDirectory_eq_ok_iff.mpr hParent]
    change (if _ then _ else _) = _
    rw [if_neg (Nat.not_lt.mpr hShort)]
    split
    · next hDirectory => exact absurd hDirectory hPlace
    · rfl

/-- A file is appended to, or a new one is begun; all other places stay as they are. -/
structure Appended (place : List String) (tree later : FileTree) : Prop where
  elsewhere : ∀ at', at' ≠ place → later.entry? at' = tree.entry? at'
  noDirectory : tree.entry? place ≠ some .directory
  grows : ∃ content, later.entry? place = some (.file content) ∧
    ∀ old, tree.entry? place = some (.file old) → old <+: content

namespace Appended

variable {place : List String} {tree later last : FileTree}

theorem agreeBut (h : Appended place tree later) : AgreeBut place tree later := by
  obtain ⟨hElsewhere, hDirectory, content, hContent, -⟩ := h
  refine ⟨hElsewhere, hDirectory, ?_⟩
  rw [hContent]
  exact nofun

theorem trans (h : Appended place tree later) (hLast : Appended place later last) :
    Appended place tree last := by
  obtain ⟨hElsewhere, hDirectory, content, hContent, hGrows⟩ := h
  obtain ⟨hElsewhere', -, content', hContent', hGrows'⟩ := hLast
  refine ⟨?_, hDirectory, content', hContent', ?_⟩
  · intro at' hAt
    rw [hElsewhere' at' hAt, hElsewhere at' hAt]
  · intro old hOld
    exact (hGrows old hOld).trans (hGrows' content hContent)

end Appended

theorem Appendable.appended_put {tree : FileTree} {directory : AbsolutePath} {path : String}
    {parent : List String} (h : tree.Appendable directory path parent) {content : List UInt8}
    (hOld : ∀ old, tree.entry? (parent ++ [Path.baseName path]) = some (.file old) →
      old <+: content) :
    Appended (parent ++ [Path.baseName path]) tree
      (tree.put (parent ++ [Path.baseName path]) content) :=
  ⟨fun _ hAt => entry?_put_of_ne h.isDirectory hAt content, h.noDirectory, content,
    entry?_put_self tree _ content, hOld⟩

/-- After a file is appended to, the path leads to it as before. -/
theorem Appendable.later {tree later : FileTree} {directory : AbsolutePath} {path : String}
    {parent : List String} (h : tree.Appendable directory path parent)
    (hLater : Appended (parent ++ [Path.baseName path]) tree later) :
    later.Appendable directory path parent where
  isPath := h.isPath
  walks := (hLater.agreeBut.walk _ _).eq_ok_iff.mp h.walks
  isDirectory := by
    rw [hLater.elsewhere parent (by simp)]
    exact h.isDirectory
  isName := h.isName
  short := h.short
  noDirectory := hLater.agreeBut.right

/-- What a run with a log may do to a tree: nothing, or append to the log. -/
def Logged (directory : AbsolutePath) (log : Option String) (tree later : FileTree) : Prop :=
  later = tree ∨ ∃ file place, log = some file ∧
    tree.resolveForAppending directory file = .ok place ∧ Appended place tree later

namespace Logged

variable {directory : AbsolutePath} {log : Option String} {tree later last : FileTree}

theorem refl (tree : FileTree) : Logged directory log tree tree :=
  .inl rfl

theorem trans (h : Logged directory log tree later) (hLast : Logged directory log later last) :
    Logged directory log tree last := by
  rcases h with rfl | ⟨file, place, hFile, hPlace, hAppended⟩
  · exact hLast
  rcases hLast with rfl | ⟨file', place', hFile', hPlace', hAppended'⟩
  · exact .inr ⟨file, place, hFile, hPlace, hAppended⟩
  · obtain rfl : file = file' := Option.some.inj (hFile.symm.trans hFile')
    obtain ⟨parent, hAppendable, rfl⟩ := resolveForAppending_eq_ok_iff.mp hPlace
    have hSame := resolveForAppending_eq_ok_iff.mpr ⟨parent, hAppendable.later hAppended, rfl⟩
    obtain rfl : _ = place' := Except.ok.inj (hSame.symm.trans hPlace')
    exact .inr ⟨file, _, hFile, hPlace, hAppended.trans hAppended'⟩

end Logged

end FileTree

end LispReader
