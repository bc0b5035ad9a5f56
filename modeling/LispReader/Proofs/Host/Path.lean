import Mathlib.Data.List.Induction
import LispReader.Host.Path

/-!
Paths written out and taken apart. A path that is put together at slashes has the names of its
parts, and the text of a path in normal form leads along the names of the path.
-/

namespace LispReader

namespace Path

/-- A text is taken apart at each of its slashes. -/
theorem splitSlashes_append (front behind : List Char) :
    splitSlashes (front ++ '/' :: behind) = splitSlashes front ++ splitSlashes behind := by
  induction front with
  | nil => rfl
  | cons c front ih =>
      rw [List.cons_append]
      by_cases hSlash : c = '/'
      · rw [hSlash, splitSlashes, splitSlashes, ih]
        rfl
      · rw [splitSlashes.eq_3 c _ hSlash, splitSlashes.eq_3 c _ hSlash, ih]
        cases hFront : splitSlashes front with
        | nil => exact absurd hFront (splitSlashes_ne_nil front)
        | cons first others => rfl

/-- No piece has a slash in it. -/
theorem notMem_of_mem_splitSlashes {text piece : List Char} (h : piece ∈ splitSlashes text) :
    '/' ∉ piece := by
  induction text generalizing piece with
  | nil =>
      rw [List.mem_singleton.mp h]
      exact List.not_mem_nil
  | cons c text ih =>
      by_cases hSlash : c = '/'
      · rw [hSlash, splitSlashes] at h
        rcases List.mem_cons.mp h with rfl | hRest
        · exact List.not_mem_nil
        · exact ih hRest
      · rw [splitSlashes.eq_3 c text hSlash] at h
        cases hText : splitSlashes text with
        | nil => exact absurd hText (splitSlashes_ne_nil text)
        | cons first others =>
            rw [hText] at h ih
            rcases List.mem_cons.mp h with rfl | hOther
            · intro hMem
              rcases List.mem_cons.mp hMem with hHead | hRest
              · exact hSlash hHead.symm
              · exact ih List.mem_cons_self hRest
            · exact ih (List.mem_cons_of_mem first hOther)

theorem splitSlashes_of_notMem {text : List Char} (h : '/' ∉ text) :
    splitSlashes text = [text] := by
  induction text with
  | nil => rfl
  | cons c text ih =>
      obtain ⟨hHead, hRest⟩ := List.ne_and_not_mem_of_not_mem_cons h
      rw [splitSlashes.eq_3 c text (Ne.symm hHead), ih hRest]

theorem names_append (front behind : String) :
    names (front ++ "/" ++ behind) = names front ++ names behind := by
  have hChars : (front ++ "/" ++ behind).toList = front.toList ++ '/' :: behind.toList := by simp
  rw [names, hChars, splitSlashes_append, List.map_append]
  rfl

theorem names_of_notMem {name : String} (h : '/' ∉ name.toList) : names name = [name] := by
  rw [names, splitSlashes_of_notMem h, List.map_singleton, String.ofList_toList]

theorem notMem_of_mem_names {path name : String} (h : name ∈ names path) : '/' ∉ name.toList := by
  obtain ⟨piece, hPiece, rfl⟩ := List.mem_map.mp h
  rw [String.toList_ofList]
  exact notMem_of_mem_splitSlashes hPiece

/-- The names of a path end in what stands behind its last slash. -/
theorem dropLast_names_append (path : String) :
    (names path).dropLast ++ [baseName path] = names path := by
  have hNames : names path ≠ [] := by
    intro hNil
    exact splitSlashes_ne_nil _ (List.map_eq_nil_iff.mp hNil)
  rw [baseName, List.getLast?_eq_some_getLast hNames, Option.getD_some]
  exact List.dropLast_concat_getLast hNames

end Path

/-- What may be a name in a path in normal form. -/
structure IsName (name : String) : Prop where
  noSlash : '/' ∉ name.toList
  ne_empty : name ≠ ""
  ne_dot : name ≠ "."
  ne_dots : name ≠ ".."

namespace AbsolutePath

theorem step_of_isName {name : String} (h : IsName name) (names : List String) :
    step names name = names ++ [name] := by
  rw [step, if_neg (not_or.mpr ⟨h.ne_empty, h.ne_dot⟩), if_neg h.ne_dots]

/-- Going along a path leads along names that may stand in a normal form. -/
theorem isName_foldl_step {pieces names : List String}
    (hPieces : ∀ piece ∈ pieces, '/' ∉ piece.toList) (hNames : ∀ name ∈ names, IsName name) :
    ∀ name ∈ pieces.foldl step names, IsName name := by
  induction pieces generalizing names with
  | nil => exact hNames
  | cons piece pieces ih =>
      obtain ⟨hPiece, hRest⟩ := List.forall_mem_cons.mp hPieces
      apply ih hRest
      unfold step
      split
      · exact hNames
      · next hKeep =>
          obtain ⟨hEmpty, hDot⟩ := not_or.mp hKeep
          split
          · exact fun name hName => hNames name (List.dropLast_subset _ hName)
          · next hDots =>
              intro name hName
              rcases List.mem_append.mp hName with hOld | hNew
              · exact hNames name hOld
              · rw [List.mem_singleton.mp hNew]
                exact ⟨hPiece, hEmpty, hDot, hDots⟩

/-- The text of a path with one more name leads along what the path does, and then along the
name. -/
theorem exists_toString_child (path : AbsolutePath) (name : String) :
    ∃ front, (path.child name).toString = front ++ "/" ++ name ∧
      (Path.names front).foldl step [] = (Path.names path.toString).foldl step [] := by
  obtain ⟨doubled, names⟩ := path
  cases names with
  | nil =>
      cases doubled with
      | false => exact ⟨"", by simp [toString, child], by decide⟩
      | true =>
          have hSlashes : "//" = "/" ++ "/" := by decide
          exact ⟨"/", by simp [toString, child, hSlashes], by decide⟩
  | cons first others =>
      refine ⟨toString ⟨doubled, first :: others⟩, ?_, rfl⟩
      simp only [toString, child]
      rw [String.intercalate_append_of_ne_nil (List.cons_ne_nil _ _) (List.cons_ne_nil _ _),
        String.intercalate_singleton, ← String.append_assoc, ← String.append_assoc]
      rfl

/-- A path in normal form is reached along the names of its text. -/
theorem foldl_step_names_toString (doubled : Bool) {names : List String}
    (h : ∀ name ∈ names, IsName name) :
    (Path.names (toString ⟨doubled, names⟩)).foldl step [] = names := by
  induction names using List.reverseRecOn with
  | nil => cases doubled <;> decide
  | append_singleton names name ih =>
      obtain ⟨hNames, hName⟩ := List.forall_mem_append.mp h
      have hLast : IsName name := hName name List.mem_cons_self
      obtain ⟨front, hText, hFront⟩ := exists_toString_child ⟨doubled, names⟩ name
      have hChild : child ⟨doubled, names⟩ name = ⟨doubled, names ++ [name]⟩ := rfl
      rw [← hChild, hText, Path.names_append, Path.names_of_notMem hLast.noSlash, List.foldl_append,
        hFront, ih hNames]
      exact step_of_isName hLast names

/-- Below the root, the way up begins with the path itself and goes on with its parent. -/
theorem ancestors_eq_cons {path : AbsolutePath} (h : path.names ≠ []) :
    path.ancestors = path :: path.parent.ancestors := by
  have hLength : path.names.length = path.parent.names.length + 1 := by
    rw [parent, List.length_dropLast, Nat.sub_add_cancel (List.length_pos_iff.mpr h)]
  have hAbove : ∀ count ∈ (List.range (path.parent.names.length + 1)).reverse,
      path.names.take count = path.parent.names.take count := by
    intro count hCount
    have hLt : count < path.parent.names.length + 1 :=
      List.mem_range.mp (List.mem_reverse.mp hCount)
    rw [parent, List.dropLast_eq_take, List.take_take, Nat.min_eq_left]
    omega
  rw [ancestors, List.range_succ, List.reverse_append, List.reverse_singleton,
    List.singleton_append, List.map_cons, List.take_length, hLength, ancestors]
  congr 1
  apply List.map_congr_left
  intro count hCount
  rw [hAbove count hCount]
  rfl

end AbsolutePath

end LispReader
