import LispReader.Host.World
import LispReader.Proofs.Host.Path

/-!
A tree of files in which one file changes. What is found along a path that does not lead to the file
stays as it is, or stays missing: no path goes on from a file, and none from a place that holds
nothing.
-/

namespace LispReader

namespace FileTree

/-- Answers that stand for each other: they are the same, or nothing is there in both cases. A path
that is not handed to the system is no case of that. -/
inductive Alike {α : Type} : Except FileFault α → Except FileFault α → Prop where
  | same (answer : Except FileFault α) : Alike answer answer
  | absent {fault other : FileFault} (h : fault ≠ .nullCharacter)
      (hOther : other ≠ .nullCharacter) : Alike (.error fault) (.error other)

namespace Alike

variable {α β : Type} {answer other : Except FileFault α}

theorem symm (h : Alike answer other) : Alike other answer := by
  cases h with
  | same => exact .same answer
  | absent h hOther => exact .absent hOther h

theorem eq_ok {a : α} (h : Alike (.ok a) other) : other = .ok a := by
  cases h
  rfl

/-- What is found is the same on both sides. -/
theorem eq_ok_iff (h : Alike answer other) {a : α} : answer = .ok a ↔ other = .ok a := by
  constructor
  · intro hAnswer
    exact (hAnswer ▸ h).eq_ok
  · intro hOther
    exact (hOther ▸ h.symm).eq_ok

theorem bind {next next' : α → Except FileFault β} (h : Alike answer other)
    (hNext : ∀ a, answer = .ok a → Alike (next a) (next' a)) :
    Alike (answer >>= next) (other >>= next') := by
  cases h with
  | same =>
      cases answer with
      | ok a => exact hNext a rfl
      | error fault => exact .same _
  | absent h hOther => exact .absent h hOther

end Alike

/-- Where something comes of two steps, something comes of the first one. -/
theorem exists_of_bind_eq_ok {α β : Type} {answer : Except FileFault α}
    {next : α → Except FileFault β} {b : β} (h : answer >>= next = .ok b) :
    ∃ a, answer = .ok a ∧ next a = .ok b := by
  cases answer with
  | ok a => exact ⟨a, rfl, h⟩
  | error fault => cases h

/-- Trees that agree at all places but one, and have no directory there. -/
structure AgreeBut (place : List String) (tree other : FileTree) : Prop where
  elsewhere : ∀ at', at' ≠ place → other.entry? at' = tree.entry? at'
  left : tree.entry? place ≠ some .directory
  right : other.entry? place ≠ some .directory

section

variable {place : List String} {tree other : FileTree}

/-- A place without a directory is not passed. -/
theorem checkDirectory_of_ne (h : tree.entry? place ≠ some .directory) :
    ∃ fault, tree.checkDirectory place = .error fault ∧ fault ≠ .nullCharacter := by
  unfold checkDirectory
  split
  · next hEntry => exact absurd hEntry h
  · exact ⟨_, rfl, by decide⟩
  · exact ⟨_, rfl, by decide⟩

theorem checkDirectory_eq_ok_iff {at' : List String} :
    tree.checkDirectory at' = .ok () ↔ tree.entry? at' = some .directory := by
  unfold checkDirectory
  split <;> simp_all

theorem AgreeBut.checkDirectory (h : AgreeBut place tree other) (at' : List String) :
    Alike (tree.checkDirectory at') (other.checkDirectory at') := by
  by_cases hAt : at' = place
  · obtain ⟨fault, hLeft, hFault⟩ := checkDirectory_of_ne h.left
    obtain ⟨fault', hRight, hFault'⟩ := checkDirectory_of_ne h.right
    rw [hAt, hLeft, hRight]
    exact .absent hFault hFault'
  · unfold FileTree.checkDirectory
    rw [h.elsewhere at' hAt]
    exact .same _

theorem AgreeBut.walk (h : AgreeBut place tree other) (start names : List String) :
    Alike (tree.walk start names) (other.walk start names) := by
  induction names generalizing start with
  | nil => exact .same _
  | cons name rest ih =>
      apply (h.checkDirectory start).bind
      intro _ _
      split
      · exact .same _
      · exact ih _

theorem AgreeBut.resolve (h : AgreeBut place tree other) (directory : AbsolutePath)
    (path : String) : Alike (tree.resolve directory path) (other.resolve directory path) := by
  apply (Alike.same (checkPath path)).bind
  intro _ _
  exact h.walk _ _

/-- A path that does not lead to the place leads to the same content in both trees. -/
theorem AgreeBut.read (h : AgreeBut place tree other) {directory : AbsolutePath} {path : String}
    (hPath : tree.resolve directory path ≠ .ok place) :
    Alike (tree.read directory path) (other.read directory path) := by
  apply (h.resolve directory path).bind
  intro at' hAt
  have hElsewhere : at' ≠ place := by
    rintro rfl
    exact hPath hAt
  rw [h.elsewhere at' hElsewhere]
  exact .same _

theorem resolve_of_walk {directory : AbsolutePath} {path : String} (hPath : checkPath path = .ok ())
    (hWalk : tree.walk (origin directory path) (Path.names path) = .ok place) :
    tree.resolve directory path = .ok place := by
  rw [FileTree.resolve, hPath]
  exact hWalk

/-- Where a walk arrives, the names alone would have led. -/
theorem eq_foldl_of_walk {start names : List String} (h : tree.walk start names = .ok place) :
    place = names.foldl AbsolutePath.step start := by
  induction names generalizing start with
  | nil => exact (Except.ok.inj h).symm
  | cons name rest ih =>
      obtain ⟨_, -, hRest⟩ := exists_of_bind_eq_ok h
      split at hRest
      · cases hRest
      · exact ih hRest

/-- A walk along more names goes on from a directory. -/
theorem walk_concat (start names : List String) (name : String) :
    tree.walk start (names ++ [name]) =
      tree.walk start names >>= fun at' => tree.walk at' [name] := by
  induction names generalizing start with
  | nil => rfl
  | cons first rest ih =>
      rw [List.cons_append, FileTree.walk, FileTree.walk, bind_assoc]
      congr 1
      funext _
      split
      · rfl
      · exact ih _

end

theorem entry?_put_self (tree : FileTree) (place : List String) (content : List UInt8) :
    entry? (tree.put place content) place = some (.file content) := by
  simp [ entry?, put]

theorem lookup_filter_ne {place at' : List String} (h : at' ≠ place)
    (entries : List (List String × FileEntry)) :
    (entries.filter fun entry => entry.1 != place).lookup at' = entries.lookup at' := by
  induction entries with
  | nil => rfl
  | cons entry entries ih =>
      by_cases hEntry : entry.1 = place
      · have hAt : (at' == entry.1) = false := by simpa [hEntry] using h
        rw [List.filter_cons_of_neg (by simpa using hEntry), ih, List.lookup_cons, hAt]
      · rw [List.filter_cons_of_pos (by simpa using hEntry), List.lookup_cons, List.lookup_cons, ih]

/-- A place is at the root or above one that is listed, so it is a directory unless it is listed
otherwise. -/
def covers (tree : FileTree) (place : List String) : Bool :=
  place.isEmpty || tree.entries.any fun entry => place.isPrefixOf entry.1

theorem covers_iff {tree : FileTree} {place : List String} :
    tree.covers place = true ↔ place = [] ∨ ∃ entry ∈ tree.entries, place <+: entry.1 := by
  simp [covers, List.isPrefixOf_iff_prefix]

theorem entry?_eq (tree : FileTree) (place : List String) :
    tree.entry? place =
      match tree.entries.lookup place with
      | some entry => some entry
      | none => if tree.covers place then some .directory else none :=
  rfl

/-- What stands above a place that holds something is covered. -/
theorem covers_of_entry {tree : FileTree} {place : List String} {entry : FileEntry}
    (h : tree.entry? place = some entry) {above : List String} (hAbove : above <+: place) :
    tree.covers above = true := by
  have hPlace : tree.covers place = true := by
    rw [entry?_eq] at h
    cases hLookup : tree.entries.lookup place with
    | some listed =>
        obtain ⟨before, behind, hEntries, -⟩ := List.lookup_eq_some_iff.mp hLookup
        apply covers_iff.mpr
        exact .inr ⟨(place, listed), by simp [hEntries], List.prefix_refl place⟩
    | none =>
        rw [hLookup] at h
        dsimp only at h
        split at h
        · next hCovers => exact hCovers
        · cases h
  rw [covers_iff] at hPlace ⊢
  rcases hPlace with rfl | ⟨listed, hListed, hPrefix⟩
  · exact .inl (List.prefix_nil.mp hAbove)
  · exact .inr ⟨listed, hListed, hAbove.trans hPrefix⟩

/-- To put a file into a directory changes nothing elsewhere. -/
theorem entry?_put_of_ne {tree : FileTree} {parent : List String} {name : String}
    (hParent : tree.entry? parent = some .directory) {at' : List String}
    (hAt : at' ≠ parent ++ [name]) (content : List UInt8) :
    entry? (tree.put (parent ++ [name]) content) at' = tree.entry? at' := by
  have hCovers : (tree.put (parent ++ [name]) content).covers at' = tree.covers at' := by
    by_cases hAbove : at' <+: parent ++ [name]
    · -- What is above the file is above its directory.
      have hAboveParent : at' <+: parent := (List.prefix_concat_iff.mp hAbove).resolve_left hAt
      rw [covers_of_entry (entry?_put_self tree _ content) hAbove,
        covers_of_entry hParent hAboveParent]
    · have hOthers (entry : List String × FileEntry) :
          (entry.1 != parent ++ [name] && at'.isPrefixOf entry.1) = at'.isPrefixOf entry.1 := by
        by_cases hEntry : entry.1 = parent ++ [name]
        · have hNot : at'.isPrefixOf entry.1 = false := by
            rwa [hEntry, ← Bool.not_eq_true, List.isPrefixOf_iff_prefix]
          rw [hNot, Bool.and_false]
        · rw [bne_iff_ne.mpr hEntry, Bool.true_and]
      have hNot : at'.isPrefixOf (parent ++ [name]) = false := by
        rwa [← Bool.not_eq_true, List.isPrefixOf_iff_prefix]
      simp only [covers, put, List.any_cons, hNot, Bool.false_or, List.any_filter, hOthers]
  have hLookup : (tree.put (parent ++ [name]) content).entries.lookup at' =
      tree.entries.lookup at' := by
    have hOther : (at' == parent ++ [name]) = false := by simpa using hAt
    rw [put, List.lookup_cons, hOther]
    exact lookup_filter_ne hAt tree.entries
  rw [entry?_eq, entry?_eq, hLookup, hCovers]

end FileTree

end LispReader
