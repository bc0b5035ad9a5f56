import LispReader.Proofs.Json.Legible
import LispReader.Proofs.Value.Entries

/-!
Where values come from. A mark of a text holds a whole number with digits behind its sign, a fixed
word or a text, and a document puts values together from nothing else; the entries of an object it
puts under their keys, so that no key comes twice. So what a text is read to is legible, and every
legible value has a text that is read to it.
-/

namespace LispReader.Json

/-- A mark that begins some text. -/
def Mark.IsSound : Mark → Prop
  | .whole digits => Decimal.isInteger digits = true
  | .word value => Legible value
  | _ => True

section Marks

theorem isDigits_of_takeWhole? {text whole rest : List Char}
    (h : takeWhole? text = some (whole, rest)) : Decimal.isDigits whole = true := by
  unfold takeWhole? at h
  split at h
  · cases h
    rfl
  · dsimp only at h
    split at h
    · cases h
    · next hSome =>
        cases h
        exact Decimal.isDigits_iff.mpr ⟨by simpa using hSome, fun c => List.mem_takeWhile_imp⟩

theorem isSign_takeMinus (text : List Char) : Decimal.IsSign (takeMinus text).1 := by
  unfold takeMinus
  split
  · exact .inr (.inr rfl)
  · exact .inl rfl

theorem isSound_of_number? {text rest : List Char} {mark : Mark}
    (h : number? text = some (mark, rest)) : mark.IsSound := by
  simp only [number?] at h
  split at h
  · cases h
  · next whole behind hWhole =>
      split at h
      · next hNone =>
          cases h
          rw [Bool.and_eq_true, List.isEmpty_iff, List.isEmpty_iff] at hNone
          rw [Mark.IsSound, hNone.1, hNone.2, List.append_nil, List.append_nil]
          exact Decimal.isInteger_iff.mpr
            ⟨_, whole, isSign_takeMinus text, isDigits_of_takeWhole? hWhole, rfl⟩
      · cases h
        trivial

theorem isSound_of_word? {text rest : List Char} {mark : Mark}
    (h : word? text = some (mark, rest)) : mark.IsSound := by
  have hWords : ∀ word ∈ words, Legible word.2 := by
    simp only [words, List.forall_mem_cons]
    exact ⟨.null, .bool true, .bool false, .float _, .float _, .float _, by simp⟩
  obtain ⟨word, hWord, h⟩ := Option.map_eq_some_iff.1 h
  cases h
  exact hWords word (List.mem_of_find?_eq_some hWord)

theorem isSound_of_next? {text rest : List Char} {mark : Mark}
    (h : Mark.next? text = some (mark, rest)) : mark.IsSound := by
  unfold Mark.next? at h
  split at h
  · cases h
  iterate 6
    · cases h
      trivial
  · split at h
    · cases h
      trivial
    · cases h
  · rcases Option.or_eq_some_iff.1 h with h | ⟨-, h⟩
    · exact isSound_of_word? h
    · exact isSound_of_number? h

theorem isSound_of_mem_marks {text : List Char} {mark : Mark} (h : mark ∈ marks text) :
    mark.IsSound := by
  fun_induction marks text with
  | case1 => cases h
  | case2 c rest _ ih => exact ih h
  | case3 c rest _ hNext =>
      cases List.mem_singleton.1 h
      trivial
  | case4 c rest _ first behind hNext ih =>
      rcases List.mem_cons.1 h with rfl | hBehind
      · exact isSound_of_next? hNext
      · exact ih hBehind

end Marks

section Documents

theorem mem_put {entries : List (String × Value)} {key : String} {value : Value}
    {entry : String × Value} (h : entry ∈ Entries.put entries key value) :
    entry = (key, value) ∨ entry ∈ entries := by
  induction entries with
  | nil => exact .inl (List.mem_singleton.1 h)
  | cons first rest ih =>
      rw [Entries.put] at h
      split at h
      · exact (List.mem_cons.1 h).imp_right (List.mem_cons_of_mem _)
      · rcases List.mem_cons.1 h with rfl | hRest
        · exact .inr List.mem_cons_self
        · exact (ih hRest).imp_right (List.mem_cons_of_mem _)

/-- A key that comes again does not come twice. -/
theorem Legible.put {entries : List (String × Value)} (h : Legible (.dict entries)) (key : String)
    {value : Value} (hValue : Legible value) : Legible (.dict (Entries.put entries key value)) := by
  obtain ⟨hNodup, hEntries⟩ := legible_dict_iff.1 h
  refine .dict ?_ fun entry hEntry => ?_
  · rw [Entries.map_fst_put]
    split
    · exact hNodup
    · next hNew =>
        refine List.nodup_append.2 ⟨hNodup, by simp, fun other hOther _ hKey => ?_⟩
        rw [List.mem_singleton.1 hKey]
        exact fun hSame => hNew (hSame ▸ hOther)
  · rcases mem_put hEntry with rfl | hOld
    · exact hValue
    · exact hEntries entry hOld

/-- What is open holds legible values only. -/
def Level.IsSound : Level → Prop
  | .arrayStart | .objectStart => True
  | .arrayItem items | .arrayComma items => ∀ item ∈ items, Legible item
  | .objectKey entries _ | .objectColon entries _ | .objectEntry entries | .objectComma entries =>
    Legible (.dict entries)

/-- What has been read so far is legible. -/
structure Document.IsSound (document : Document) : Prop where
  levels : ∀ level ∈ document.levels, level.IsSound
  value : ∀ value ∈ document.value, Legible value

namespace Document

variable {document next : Document} {level : Level} {outer : List Level} {finished : Option Value}

theorem IsSound.cons (hOuter : (⟨outer, finished⟩ : Document).IsSound) (hLevel : level.IsSound) :
    (⟨level :: outer, finished⟩ : Document).IsSound :=
  ⟨List.forall_mem_cons.2 ⟨hLevel, hOuter.levels⟩, hOuter.value⟩

theorem IsSound.of_levels (h : document.IsSound) (hLevels : document.levels = level :: outer) :
    level.IsSound ∧ (⟨outer, document.value⟩ : Document).IsSound := by
  have hAll := h.levels
  rw [hLevels] at hAll
  obtain ⟨hLevel, hOuter⟩ := List.forall_mem_cons.1 hAll
  exact ⟨hLevel, hOuter, h.value⟩

theorem IsSound.place {value : Value} (h : document.IsSound) (hValue : Legible value)
    (hPlace : document.place value = .ok next) : next.IsSound := by
  unfold Document.place at hPlace
  split at hPlace
  · split at hPlace <;> cases hPlace
    exact ⟨by simp, by simpa using hValue⟩
  · next outer hLevels =>
      cases hPlace
      exact (h.of_levels hLevels).2.cons (by simpa [Level.IsSound] using hValue)
  · next items outer hLevels =>
      cases hPlace
      obtain ⟨hItems, hOuter⟩ := h.of_levels hLevels
      exact hOuter.cons (List.forall_mem_cons.2 ⟨hValue, hItems⟩)
  · next entries key outer hLevels =>
      cases hPlace
      obtain ⟨hEntries, hOuter⟩ := h.of_levels hLevels
      exact hOuter.cons (Legible.put hEntries key hValue)
  · cases hPlace

theorem IsSound.openLevel (h : document.IsSound) (hLevel : level.IsSound)
    (hOpen : document.openLevel level = .ok next) : next.IsSound := by
  unfold Document.openLevel at hOpen
  split at hOpen <;> cases hOpen
  exact IsSound.cons h hLevel

/-- A mark leaves a document with legible values. -/
theorem IsSound.feed {mark : Mark} (h : document.IsSound) (hMark : mark.IsSound)
    (hFeed : document.feed mark = .ok next) : next.IsSound := by
  cases mark with
  | openArray => exact h.openLevel (show Level.arrayStart.IsSound from trivial) hFeed
  | openObject => exact h.openLevel (show Level.objectStart.IsSound from trivial) hFeed
  | closeArray =>
      simp only [Document.feed] at hFeed
      split at hFeed
      · next hLevels => exact (h.of_levels hLevels).2.place (.list (by simp)) hFeed
      · next hLevels =>
          obtain ⟨hItems, hOuter⟩ := h.of_levels hLevels
          exact hOuter.place (.list fun item hItem => hItems item (List.mem_reverse.1 hItem)) hFeed
      · cases hFeed
  | closeObject =>
      simp only [Document.feed] at hFeed
      split at hFeed
      · next hLevels => exact (h.of_levels hLevels).2.place (.dict (by simp) (by simp)) hFeed
      · next hLevels =>
          obtain ⟨hEntries, hOuter⟩ := h.of_levels hLevels
          exact hOuter.place hEntries hFeed
      · cases hFeed
  | comma | colon =>
      -- the level goes on with the same values
      simp only [Document.feed] at hFeed
      split at hFeed <;> cases hFeed
      all_goals
        next hLevels =>
          obtain ⟨hHeld, hOuter⟩ := h.of_levels hLevels
          exact hOuter.cons hHeld
  | string text =>
      simp only [Document.feed] at hFeed
      split at hFeed
      · next hLevels =>
          cases hFeed
          exact (h.of_levels hLevels).2.cons (.dict (by simp) (by simp))
      · next hLevels =>
          cases hFeed
          obtain ⟨hEntries, hOuter⟩ := h.of_levels hLevels
          exact hOuter.cons hEntries
      · exact h.place (.text text) hFeed
  | whole digits =>
      simp only [Document.feed] at hFeed
      split at hFeed
      · split at hFeed
        · next value hRead =>
            exact h.place (.int (Decimal.isShort_of_readInteger hMark hRead)) hFeed
        · cases hFeed
      · cases hFeed
  | real digits =>
      simp only [Document.feed] at hFeed
      split at hFeed
      · exact h.place (.float _) hFeed
      · cases hFeed
  | word value => exact h.place hMark hFeed
  | malformed => cases hFeed

/-- Marks one after the other leave a document with legible values. -/
theorem IsSound.foldlM {marks : List Mark} (h : document.IsSound)
    (hMarks : ∀ mark ∈ marks, mark.IsSound)
    (hFold : marks.foldlM Document.feed document = .ok next) : next.IsSound := by
  induction marks generalizing document with
  | nil =>
      cases hFold
      exact h
  | cons mark marks ih =>
      obtain ⟨hMark, hOthers⟩ := List.forall_mem_cons.1 hMarks
      rw [List.foldlM_cons] at hFold
      cases hFeed : document.feed mark with
      | error fault =>
          rw [hFeed] at hFold
          cases hFold
      | ok between =>
          rw [hFeed] at hFold
          exact ih (h.feed hMark hFeed) hOthers hFold

end Document

end Documents

/-- What a text is read to is legible. -/
theorem legible_of_read {text : List Char} {value : Value} (h : read text = .ok value) :
    Legible value := by
  have hEmpty : Document.empty.IsSound := ⟨by simp [Document.empty], by simp [Document.empty]⟩
  unfold read at h
  cases hFold : (marks text).foldlM Document.feed .empty with
  | error fault =>
      rw [hFold] at h
      cases h
  | ok document =>
      rw [hFold] at h
      have hSound := hEmpty.foldlM (fun mark => isSound_of_mem_marks) hFold
      simp only [bind, Except.bind] at h
      split at h
      · next found =>
          cases h
          exact hSound.value _ rfl
      · cases h

/-- The legible values are those that texts are read to. -/
theorem legible_iff_exists_read {value : Value} :
    Legible value ↔ ∃ text, read text = .ok value := by
  constructor
  · intro h
    obtain ⟨text, -, hDenotes⟩ := h.exists_write Layout.readable_default rfl rfl 0
    exact ⟨text.toList, hDenotes.read_eq⟩
  · rintro ⟨text, hRead⟩
    exact legible_of_read hRead

end LispReader.Json
