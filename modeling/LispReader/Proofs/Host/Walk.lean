import LispReader.Proofs.Host.Parent
import LispReader.Proofs.Host.Tree
import LispReader.Proofs.Host.World

/-!
Walks along paths in normal form. Such a path leads along its names, through directories only, and
no name on the way may be too long. A file that it leads to is the one at the place of that name.
-/

namespace LispReader

namespace AbsolutePath

/-- The text of a path is taken apart into the names of the path, behind the empty ones in front of
its first slashes. -/
theorem names_toString_child {doubled : Bool} {names : List String}
    (hNames : ∀ name ∈ names, IsName name) {last : String} (hLast : IsName last) :
    Path.names (child ⟨doubled, names⟩ last).toString =
      (if doubled then ["", ""] else [""]) ++ (names ++ [last]) := by
  induction names using List.reverseRecOn generalizing last with
  | nil =>
      obtain ⟨front, hText, hFront⟩ : ∃ front, (child ⟨doubled, []⟩ last).toString =
          front ++ "/" ++ last ∧ Path.names front = if doubled then ["", ""] else [""] := by
        cases doubled with
        | false => exact ⟨"", by simp [toString, child], by decide⟩
        | true =>
            have hSlashes : "//" = "/" ++ "/" := by decide
            exact ⟨"/", by simp [toString, child, hSlashes], by decide⟩
      rw [hText, Path.names_append, hFront, Path.names_of_notMem hLast.noSlash]
      rfl
  | append_singleton names name ih =>
      obtain ⟨hOthers, hName⟩ := List.forall_mem_append.mp hNames
      have hAbove : Path.names (toString ⟨doubled, names ++ [name]⟩) =
          (if doubled then ["", ""] else [""]) ++ (names ++ [name]) :=
        ih hOthers (hName name List.mem_cons_self)
      have hSome : (⟨doubled, names ++ [name]⟩ : AbsolutePath).names ≠ [] := by simp
      rw [toString_child_of_ne_nil hSome, Path.names_append, hAbove,
        Path.names_of_notMem hLast.noSlash, List.append_assoc]

end AbsolutePath

namespace FileTree

variable {tree : FileTree} {start place : List String}

theorem walk_cons_eq_ok_iff {name : String} {rest : List String} :
    tree.walk start (name :: rest) = .ok place ↔
      tree.entry? start = some .directory ∧ name.utf8ByteSize ≤ nameLimit ∧
        tree.walk (AbsolutePath.step start name) rest = .ok place := by
  rw [← checkDirectory_eq_ok_iff, FileTree.walk]
  cases tree.checkDirectory start with
  | error fault => simp [bind, Except.bind]
  | ok _ =>
      by_cases hLong : nameLimit < name.utf8ByteSize
      · simp [bind, Except.bind, hLong, Nat.not_le.mpr hLong, throw, throwThe, MonadExceptOf.throw]
      · simp [bind, Except.bind, hLong, Nat.le_of_not_lt hLong]

/-- An empty name leads nowhere, but it is asked whether the place is a directory. -/
theorem walk_blank_eq_ok_iff {rest : List String} :
    tree.walk start ("" :: rest) = .ok place ↔
      tree.entry? start = some .directory ∧ tree.walk start rest = .ok place := by
  rw [walk_cons_eq_ok_iff]
  simp [AbsolutePath.step]

theorem walk_concat_eq_ok_iff {names : List String} (hNames : ∀ name ∈ names, IsName name)
    {last : String} (hLast : IsName last) :
    tree.walk start (names ++ [last]) = .ok place ↔
      (∀ above, above <+: names → tree.entry? (start ++ above) = some .directory) ∧
      (∀ name ∈ names ++ [last], name.utf8ByteSize ≤ nameLimit) ∧
      start ++ (names ++ [last]) = place := by
  induction names generalizing start with
  | nil =>
      rw [List.nil_append, walk_cons_eq_ok_iff, AbsolutePath.step_of_isName hLast, FileTree.walk]
      simp
  | cons name names ih =>
      obtain ⟨hName, hRest⟩ := List.forall_mem_cons.mp hNames
      have hAbove : (∀ above, above <+: name :: names →
          tree.entry? (start ++ above) = some .directory) ↔ tree.entry? start = some .directory ∧
            ∀ above, above <+: names →
              tree.entry? (start ++ [name] ++ above) = some .directory := by
        simp only [List.prefix_cons_iff, List.append_assoc, List.singleton_append]
        constructor
        · intro h
          refine ⟨by simpa using h [] (.inl rfl), fun above hPrefix => ?_⟩
          exact h (name :: above) (.inr ⟨above, rfl, hPrefix⟩)
        · rintro ⟨hStart, hBelow⟩ above (rfl | ⟨rest, rfl, hPrefix⟩)
          · simpa using hStart
          · exact hBelow rest hPrefix
      rw [List.cons_append, walk_cons_eq_ok_iff, AbsolutePath.step_of_isName hName, ih hRest,
        hAbove, List.forall_mem_cons, List.append_assoc, List.singleton_append]
      tauto

/-- The way to what stands in a directory leads through the directories above. -/
theorem walk_child_eq_ok_iff {path : AbsolutePath} (hNames : ∀ name ∈ path.names, IsName name)
    {last : String} (hLast : IsName last) :
    tree.walk [] (Path.names (path.child last).toString) = .ok place ↔
      (∀ above, above <+: path.names → tree.entry? above = some .directory) ∧
      (∀ name ∈ path.names ++ [last], name.utf8ByteSize ≤ nameLimit) ∧
      path.names ++ [last] = place := by
  obtain ⟨doubled, names⟩ := path
  rw [AbsolutePath.names_toString_child hNames hLast]
  have hWalk : tree.walk [] ((if doubled then ["", ""] else [""]) ++ (names ++ [last])) =
      .ok place ↔
      tree.entry? [] = some .directory ∧ tree.walk [] (names ++ [last]) = .ok place := by
    cases doubled <;> simp [walk_blank_eq_ok_iff]
  rw [hWalk, walk_concat_eq_ok_iff hNames hLast]
  simp only [List.nil_append]
  constructor
  · intro h
    exact h.2
  · intro h
    exact ⟨h.1 [] List.nil_prefix, h⟩

end FileTree

end LispReader
