import Mathlib.Data.List.DropRight
import Mathlib.Data.Nat.Find
import Mathlib.Logic.Function.Iterate
import LispReader.Proofs.Host.Path

/-!
Going up in a path as a text. What stands before the last slash is the directory of a path, and a
path that is its own directory has no name left. Among the texts of paths in normal form, this is
going to the parent, and from parent to parent the way leads through all ancestors up to the top.
-/

namespace LispReader

namespace Path

/-- All of a path up to its last slash, without the slashes that it ends in. It keeps them if it is
made of nothing else. -/
def dirname (path : String) : String :=
  let front := path.toList.rdropWhile (· != '/')
  String.ofList (if front.all (· == '/') then front else front.rdropWhile (· == '/'))

/-- A path and what lies behind it. A path that begins with a slash lies behind no other. -/
def join (front behind : String) : String :=
  if behind.toList.head? = some '/' then behind
  else if front = "" ∨ front.toList.getLast? = some '/' then front ++ behind
  else front ++ "/" ++ behind

/-- What stands behind the last slash is dropped. -/
theorem rdropWhile_slash_append {name : List Char} (hName : '/' ∉ name) (front : List Char) :
    (front ++ '/' :: name).rdropWhile (· != '/') = front ++ ['/'] := by
  have hBehind : ∀ c ∈ name.reverse, (c != '/') = true := by
    intro c hc
    rw [bne_iff_ne]
    rintro rfl
    exact hName (List.mem_reverse.mp hc)
  rw [List.rdropWhile, List.reverse_append, List.reverse_cons, List.append_assoc,
    List.dropWhile_append_of_pos hBehind]
  simp

end Path

namespace AbsolutePath

open LispReader.Path

variable {path : AbsolutePath}

/-- A path without names is made of slashes, so nothing more stands in front of its children. -/
theorem toString_child_of_nil (hNone : path.names = []) (name : String) :
    (path.child name).toString = path.toString ++ name := by
  simp [toString, child, hNone]

theorem toString_child_of_ne_nil (hSome : path.names ≠ []) (name : String) :
    (path.child name).toString = path.toString ++ "/" ++ name := by
  simp only [toString, child]
  rw [String.intercalate_append_of_ne_nil hSome (List.cons_ne_nil _ _),
    String.intercalate_singleton, ← String.append_assoc, ← String.append_assoc]
  rfl

theorem parent_of_nil (hNone : path.names = []) : path.parent = path := by
  obtain ⟨doubled, names⟩ := path
  cases hNone
  rfl

theorem length_parent_lt (hSome : path.names ≠ []) :
    path.parent.names.length < path.names.length := by
  rw [parent, List.length_dropLast]
  exact Nat.sub_one_lt (List.length_pos_iff.mpr hSome).ne'

/-- A path with names is a child of its parent. -/
theorem exists_eq_child (hSome : path.names ≠ []) :
    ∃ name ∈ path.names, path = path.parent.child name := by
  refine ⟨path.names.getLast hSome, List.getLast_mem hSome, ?_⟩
  rw [child, parent, List.dropLast_concat_getLast]

/-- The normal form of a path has names only. -/
theorem isName_ofText {directory : AbsolutePath}
    (hDirectory : ∀ name ∈ directory.names, IsName name) (path : String) :
    ∀ name ∈ (ofText directory path).names, IsName name := by
  unfold ofText
  dsimp only
  split
  · exact isName_foldl_step (fun _ => notMem_of_mem_names) (List.forall_mem_nil _)
  · exact isName_foldl_step (fun _ => notMem_of_mem_names) hDirectory

theorem forall_mem_parent {p : String → Prop} (h : ∀ name ∈ path.names, p name) :
    ∀ name ∈ path.parent.names, p name := by
  intro name hName
  exact h name (List.dropLast_subset _ hName)

/-- The text of a path without names is made of slashes. -/
theorem exists_slashes_of_nil (hNone : path.names = []) :
    ∃ front, path.toString.toList = front ++ ['/'] ∧ (front ++ ['/']).all (· == '/') = true := by
  obtain ⟨doubled, names⟩ := path
  cases hNone
  cases doubled
  · exact ⟨[], rfl, rfl⟩
  · exact ⟨['/'], rfl, rfl⟩

/-- The text of a path with names ends in no slash. -/
theorem exists_toList_toString (hNames : ∀ name ∈ path.names, IsName name)
    (hSome : path.names ≠ []) : ∃ front c, path.toString.toList = front ++ [c] ∧ c ≠ '/' := by
  obtain ⟨name, hMem, hChild⟩ := exists_eq_child hSome
  have hName := hNames name hMem
  obtain ⟨front, hText, -⟩ := path.parent.exists_toString_child name
  have hChars : name.toList ≠ [] := by
    intro hEmpty
    exact hName.ne_empty (String.toList_eq_nil_iff.mp hEmpty)
  refine ⟨(front ++ "/").toList ++ name.toList.dropLast, name.toList.getLast hChars, ?_, ?_⟩
  · rw [hChild, hText, String.toList_append, List.append_assoc, List.dropLast_concat_getLast]
  · intro hSlash
    exact hName.noSlash (hSlash ▸ List.getLast_mem hChars)

/-- Behind a path in normal form, a name leads to its child. -/
theorem join_toString (hNames : ∀ name ∈ path.names, IsName name) {name : String}
    (hName : IsName name) : join path.toString name = (path.child name).toString := by
  have hRelative : name.toList.head? ≠ some '/' := by
    intro hHead
    exact hName.noSlash (List.mem_of_head? hHead)
  rw [join, if_neg hRelative]
  by_cases hNone : path.names = []
  · obtain ⟨front, hText, -⟩ := exists_slashes_of_nil hNone
    rw [toString_child_of_nil hNone, if_pos]
    simp [hText]
  · obtain ⟨front, c, hText, hSlash⟩ := exists_toList_toString hNames hNone
    have hEnds : ¬ (path.toString = "" ∨ path.toString.toList.getLast? = some '/') := by
      rw [← String.toList_eq_nil_iff, hText]
      simp [hSlash]
    rw [toString_child_of_ne_nil hNone, if_neg hEnds]

/-- What the directory of a path keeps of what stands before the last slash. -/
theorem dirname_of_append {text : String} {front name : List Char} (hName : '/' ∉ name)
    (hText : text.toList = front ++ '/' :: name) : dirname text =
      String.ofList (if (front ++ ['/']).all (· == '/') then front ++ ['/']
        else front.rdropWhile (· == '/')) := by
  rw [dirname, hText, rdropWhile_slash_append hName, List.rdropWhile_concat_pos _ _ _ rfl]

theorem dirname_toString_child (hNames : ∀ name ∈ path.names, IsName name) {name : String}
    (hName : IsName name) : dirname (path.child name).toString = path.toString := by
  by_cases hNone : path.names = []
  · obtain ⟨front, hText, hSlashes⟩ := exists_slashes_of_nil hNone
    have hChild : (path.child name).toString.toList = front ++ '/' :: name.toList := by
      rw [toString_child_of_nil hNone, String.toList_append, hText, List.append_assoc]
      rfl
    rw [dirname_of_append hName.noSlash hChild, if_pos hSlashes, ← hText, String.ofList_toList]
  · obtain ⟨front, c, hText, hSlash⟩ := exists_toList_toString hNames hNone
    have hChild : (path.child name).toString.toList =
        path.toString.toList ++ '/' :: name.toList := by
      rw [toString_child_of_ne_nil hNone]
      simp
    have hKept : path.toString.toList.rdropWhile (· == '/') = path.toString.toList := by
      rw [hText]
      exact List.rdropWhile_concat_neg _ _ _ (by simpa using hSlash)
    have hOther : ¬ (path.toString.toList ++ ['/']).all (· == '/') = true := by
      rw [hText]
      simp [hSlash]
    rw [dirname_of_append hName.noSlash hChild, if_neg hOther, hKept, String.ofList_toList]

/-- The directory of a path in normal form is its parent. -/
theorem dirname_toString (hNames : ∀ name ∈ path.names, IsName name) :
    dirname path.toString = path.parent.toString := by
  by_cases hNone : path.names = []
  · obtain ⟨front, hText, hSlashes⟩ := exists_slashes_of_nil hNone
    rw [parent_of_nil hNone, dirname_of_append List.not_mem_nil hText, if_pos hSlashes, ← hText,
      String.ofList_toList]
  · obtain ⟨name, hMem, hChild⟩ := exists_eq_child hNone
    have hDirectory := dirname_toString_child (forall_mem_parent hNames) (hNames name hMem)
    rw [← hChild] at hDirectory
    exact hDirectory

example : dirname (toString ⟨true, ["a"]⟩) = "//" := by decide

/-- Different paths in normal form have different texts, below the same slashes. -/
theorem toString_inj {doubled : Bool} {first second : List String}
    (hFirst : ∀ name ∈ first, IsName name) (hSecond : ∀ name ∈ second, IsName name)
    (hSame : toString ⟨doubled, first⟩ = toString ⟨doubled, second⟩) : first = second := by
  rw [← foldl_step_names_toString doubled hFirst, hSame, foldl_step_names_toString doubled hSecond]

/-- A path in normal form is its own directory if it has no names. -/
theorem dirname_toString_eq_iff (hNames : ∀ name ∈ path.names, IsName name) :
    dirname path.toString = path.toString ↔ path.names = [] := by
  rw [dirname_toString hNames]
  constructor
  · intro hSame
    have hShorter : path.names.dropLast = path.names :=
      toString_inj (forall_mem_parent hNames) hNames hSame
    by_contra hSome
    have hLess := length_parent_lt hSome
    rw [parent, hShorter] at hLess
    exact Nat.lt_irrefl _ hLess
  · intro hNone
    rw [parent_of_nil hNone]

section

variable {root : AbsolutePath} {test : AbsolutePath → Bool}

theorem ancestors_of_nil (hNone : path.names = []) : path.ancestors = [path] := by
  obtain ⟨doubled, names⟩ := path
  cases hNone
  rfl

/-- The top of the way up is reached and not left. -/
theorem iterate_parent_of_nil (hNone : path.names = []) (count : Nat) :
    parent^[count] path = path :=
  Function.iterate_fixed (parent_of_nil hNone) count

theorem names_iterate_parent (path : AbsolutePath) :
    (parent^[path.names.length] path).names = [] := by
  induction hLength : path.names.length generalizing path with
  | zero => exact List.length_eq_zero_iff.mp hLength
  | succ length ih =>
      rw [Function.iterate_succ_apply]
      apply ih
      rw [parent, List.length_dropLast, hLength, Nat.add_sub_cancel]

theorem forall_mem_iterate_parent {p : String → Prop} (h : ∀ name ∈ path.names, p name)
    (count : Nat) : ∀ name ∈ (parent^[count] path).names, p name := by
  induction count generalizing path with
  | zero => exact h
  | succ count ih => exact ih (forall_mem_parent h)

/-- A directory on the way up is the nearest one with a property: it has it, and no other one before
it does. -/
def NearestWith (p : AbsolutePath → Prop) (path root : AbsolutePath) : Prop :=
  ∃ count, root = parent^[count] path ∧ p root ∧ ∀ earlier < count, ¬ p (parent^[earlier] path)

theorem nearestWith_of_holds {p : AbsolutePath → Prop} (h : p path) :
    NearestWith p path root ↔ root = path := by
  constructor
  · rintro ⟨count, rfl, -, hEarlier⟩
    cases count with
    | zero => rfl
    | succ count => exact absurd h (hEarlier 0 (Nat.succ_pos count))
  · rintro rfl
    exact ⟨0, rfl, h, nofun⟩

/-- Where a directory does not have the property, the search goes on above it. -/
theorem nearestWith_parent {p : AbsolutePath → Prop} (h : ¬ p path) :
    NearestWith p path root ↔ NearestWith p path.parent root := by
  constructor
  · rintro ⟨count, rfl, hRoot, hEarlier⟩
    cases count with
    | zero => exact absurd hRoot h
    | succ count =>
        refine ⟨count, rfl, hRoot, fun earlier hLess => ?_⟩
        exact hEarlier (earlier + 1) (Nat.succ_lt_succ hLess)
  · rintro ⟨count, rfl, hRoot, hEarlier⟩
    refine ⟨count + 1, rfl, hRoot, fun earlier hLess => ?_⟩
    cases earlier with
    | zero => exact h
    | succ earlier => exact hEarlier earlier (Nat.lt_of_succ_lt_succ hLess)

theorem nearestWith_congr {p q : AbsolutePath → Prop}
    (h : ∀ count, p (parent^[count] path) ↔ q (parent^[count] path)) :
    NearestWith p path root ↔ NearestWith q path root := by
  apply exists_congr
  intro count
  apply and_congr_right
  rintro rfl
  apply and_congr (h count)
  exact forall₂_congr fun earlier _ => not_congr (h earlier)

theorem find?_ancestors_of_holds (hTest : test path = true) :
    path.ancestors.find? test = some path := by
  by_cases hNone : path.names = []
  · rw [ancestors_of_nil hNone, List.find?_cons_of_pos hTest]
  · rw [ancestors_eq_cons hNone, List.find?_cons_of_pos hTest]

theorem find?_ancestors_eq_some_iff {path : AbsolutePath} : path.ancestors.find? test = some root ↔
    NearestWith (fun directory => test directory = true) path root := by
  by_cases hTest : test path = true
  · rw [find?_ancestors_of_holds hTest, nearestWith_of_holds hTest, Option.some_inj, eq_comm]
  · by_cases hNone : path.names = []
    · -- the way up ends here, and goes to no other directory
      rw [ancestors_of_nil hNone, List.find?_singleton, if_neg hTest]
      apply iff_of_false nofun
      rintro ⟨count, rfl, hRoot, -⟩
      rw [iterate_parent_of_nil hNone] at hRoot
      exact hTest hRoot
    · have := length_parent_lt hNone
      rw [ancestors_eq_cons hNone, List.find?_cons_of_neg hTest, nearestWith_parent hTest]
      exact find?_ancestors_eq_some_iff
termination_by path.names.length

/-- Nothing is found if no directory on the way up has the property. -/
theorem find?_ancestors_eq_none_iff : path.ancestors.find? test = none ↔
    ∀ count, ¬ test (parent^[count] path) = true := by
  constructor
  · intro hNone count hTest
    -- the first directory that has it would have been found
    have hSome : ∃ count, test (parent^[count] path) = true := ⟨count, hTest⟩
    have hFound := find?_ancestors_eq_some_iff.mpr
      ⟨Nat.find hSome, rfl, Nat.find_spec hSome, fun earlier => Nat.find_min hSome⟩
    rw [hNone] at hFound
    cases hFound
  · intro hNever
    rw [Option.eq_none_iff_forall_ne_some]
    intro root hFound
    obtain ⟨count, rfl, hRoot, -⟩ := find?_ancestors_eq_some_iff.mp hFound
    exact hNever count hRoot

end

end AbsolutePath

end LispReader
