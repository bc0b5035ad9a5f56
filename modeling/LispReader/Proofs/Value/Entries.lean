import Mathlib.Data.List.Induction
import Mathlib.Data.List.Nodup
import LispReader.Value.Basic

/-!
Entries that are put one after the other. A key that is put again keeps its place and takes the new
value, so of repeated keys the first place and the last value are left.
-/

namespace LispReader.Entries

theorem put_of_notMem {entries : List (String × Value)} {key : String} (value : Value)
    (hKey : key ∉ entries.map Prod.fst) : put entries key value = entries ++ [(key, value)] := by
  induction entries with
  | nil => rfl
  | cons entry rest ih =>
      rw [List.map_cons, List.mem_cons, not_or] at hKey
      rw [put, if_neg (Ne.symm hKey.1), ih hKey.2]
      rfl

theorem foldl_put_of_nodup {done entries : List (String × Value)}
    (hNodup : ((done ++ entries).map Prod.fst).Nodup) :
    entries.foldl (fun done entry => put done entry.1 entry.2) done = done ++ entries := by
  induction entries generalizing done with
  | nil => simp
  | cons entry rest ih =>
      have hKey : entry.1 ∉ done.map Prod.fst := by
        rw [List.map_append, List.map_cons] at hNodup
        intro hMem
        exact (List.nodup_append.1 hNodup).2.2 _ hMem _ List.mem_cons_self rfl
      rw [List.foldl_cons, put_of_notMem entry.2 hKey, ih (by simpa using hNodup)]
      simp

/-- Under different keys every value is found. -/
theorem get?_of_mem {entries : List (String × Value)} {key : String} {value : Value}
    (hNodup : (entries.map Prod.fst).Nodup) (hMem : (key, value) ∈ entries) :
    get? entries key = some value := by
  induction entries with
  | nil => cases hMem
  | cons entry rest ih =>
      obtain ⟨name, held⟩ := entry
      obtain ⟨hHead, hRest⟩ := List.nodup_cons.1 hNodup
      obtain hSame | hBehind := List.mem_cons.1 hMem
      · cases hSame
        simp [get?]
      · have hKey : (key == name) = false := by
          refine beq_eq_false_iff_ne.2 ?_
          rintro rfl
          exact hHead (List.mem_map.2 ⟨_, hBehind, rfl⟩)
        simpa [get?, List.lookup_cons, hKey] using ih hRest hBehind

/-- The value that came last under a key. -/
def last? (entries : List (String × Value)) (key : String) : Option Value :=
  entries.reverse.lookup key

theorem last?_concat (entries : List (String × Value)) (entry : String × Value) (key : String) :
    last? (entries ++ [entry]) key =
      if key = entry.1 then some entry.2 else last? entries key := by
  obtain ⟨name, value⟩ := entry
  by_cases hKey : key = name
  · simp [last?, hKey]
  · have hName : (key == name) = false := beq_eq_false_iff_ne.mpr hKey
    simp [last?, List.lookup_cons, hName, hKey]

theorem mem_of_last? {entries : List (String × Value)} {key : String} {value : Value}
    (h : last? entries key = some value) : (key, value) ∈ entries := by
  obtain ⟨front, back, hEntries, -⟩ := List.lookup_eq_some_iff.mp h
  rw [← List.mem_reverse, hEntries]
  simp

theorem get?_put_of_ne {entries : List (String × Value)} {key name : String} (h : key ≠ name)
    (value : Value) : get? (put entries name value) key = get? entries key := by
  have hName : (key == name) = false := beq_eq_false_iff_ne.mpr h
  induction entries with
  | nil => simp [put, get?, List.lookup_cons, hName]
  | cons entry rest ih =>
      obtain ⟨k, v⟩ := entry
      rw [put]
      split
      · next hSame => simp [get?, List.lookup_cons, hSame, hName]
      · simp only [get?, List.lookup_cons] at ih ⊢
        rw [ih]

theorem map_fst_put (entries : List (String × Value)) (key : String) (value : Value) :
    (put entries key value).map Prod.fst =
      if key ∈ entries.map Prod.fst then entries.map Prod.fst
      else entries.map Prod.fst ++ [key] := by
  induction entries with
  | nil => rfl
  | cons entry rest ih =>
      obtain ⟨k, v⟩ := entry
      rw [put]
      by_cases hKey : k = key
      · simp [hKey]
      · rw [if_neg hKey, List.map_cons, ih]
        simp only [List.map_cons, List.mem_cons, Ne.symm hKey, false_or]
        split <;> rfl

theorem ofList_concat (entries : List (String × Value)) (entry : String × Value) :
    ofList (entries ++ [entry]) = put (ofList entries) entry.1 entry.2 := by
  simp [ofList]

/-- Under every key stands the value that came last. -/
theorem get?_ofList (entries : List (String × Value)) (key : String) :
    get? (ofList entries) key = last? entries key := by
  induction entries using List.reverseRecOn with
  | nil => rfl
  | append_singleton entries entry ih =>
      rw [ofList_concat, last?_concat]
      split
      · next hKey => rw [hKey, get?_put]
      · next hKey => rw [get?_put_of_ne hKey, ih]

/-- Every key stands where it came first. -/
theorem map_fst_ofList (entries : List (String × Value)) :
    (ofList entries).map Prod.fst = (entries.map Prod.fst).eraseDups := by
  induction entries using List.reverseRecOn with
  | nil => rfl
  | append_singleton entries entry ih =>
      rw [ofList_concat, map_fst_put, ih, List.map_append, List.eraseDups_append]
      by_cases hKey : entry.1 ∈ entries.map Prod.fst
      · rw [if_pos (List.mem_eraseDups.mpr hKey)]
        simp [List.removeAll, hKey]
      · rw [if_neg (fun hMem => hKey (List.mem_eraseDups.mp hMem))]
        simp [List.removeAll, hKey, List.eraseDups_cons]

theorem nodup_ofList (entries : List (String × Value)) :
    ((ofList entries).map Prod.fst).Nodup := by
  induction entries using List.reverseRecOn with
  | nil => exact List.nodup_nil
  | append_singleton entries entry ih =>
      rw [ofList_concat, map_fst_put]
      split
      · exact ih
      · next hKey => exact List.concat_eq_append ▸ ih.concat hKey

end LispReader.Entries
