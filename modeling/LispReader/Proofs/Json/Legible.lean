import LispReader.Proofs.Decimal.Reread
import LispReader.Proofs.Json.Object

/-!
Values that are read back from what is written for them: scalars, but for whole numbers that are too
long, and arrays and objects of such values, if no key comes twice. Every layout that can be read
will do, as long as it does not refuse doubles or sort the entries of objects.
-/

namespace LispReader.Json

/-- A value that a text can be read to. -/
inductive Legible : Value → Prop
  | null : Legible .null
  | bool (value : Bool) : Legible (.bool value)
  | int {value : Int} (hShort : Decimal.IsShort value) : Legible (.int value)
  | float (x : Float) : Legible (.float x)
  | text (text : String) : Legible (.text text)
  | list {items : List Value} (hItems : ∀ item ∈ items, Legible item) : Legible (.list items)
  | dict {entries : List (String × Value)} (hNodup : (entries.map Prod.fst).Nodup)
      (hEntries : ∀ entry ∈ entries, Legible entry.2) : Legible (.dict entries)

theorem legible_dict_iff {entries : List (String × Value)} :
    Legible (.dict entries) ↔
      (entries.map Prod.fst).Nodup ∧ ∀ entry ∈ entries, Legible entry.2 := by
  constructor
  · intro h
    cases h with
    | dict hNodup hEntries => exact ⟨hNodup, hEntries⟩
  · exact fun h => .dict h.1 h.2

theorem Legible.isJson {value : Value} (h : Legible value) : value.IsJson := by
  induction h with
  | list _ ih => exact .list ih
  | dict _ _ ih => exact .dict ih
  | _ => exact .scalar rfl

/-- The whole numbers of a legible value are not too long. -/
theorem Legible.isShort {value : Value} (h : Legible value) {n : Int}
    (hMem : .whole n ∈ value.numbers) : Decimal.IsShort n := by
  induction h with
  | null | bool | float | text => simp [Value.numbers] at hMem
  | int hShort =>
      obtain rfl : n = _ := by simpa [Value.numbers] using hMem
      exact hShort
  | list _ ih =>
      rw [Value.numbers, numbersOfAll_eq, List.mem_flatMap] at hMem
      obtain ⟨item, hItem, hNumber⟩ := hMem
      exact ih item hItem hNumber
  | dict _ _ ih =>
      rw [Value.numbers, numbersOfEntries_eq, List.mem_flatMap] at hMem
      obtain ⟨entry, hEntry, hNumber⟩ := hMem
      exact ih entry hEntry hNumber

section Scalars

/-- A fixed word denotes the value that it stands for. -/
theorem denotes_word {word : String} {value : Value}
    (hNext : ∀ rest, Mark.next? (word.toList ++ rest) = some (.word value, rest)) :
    Denotes word.toList value :=
  .of_next? (fun rest _ => hNext rest) fun _ _ => rfl

theorem denotes_null : Denotes "null".toList .null :=
  denotes_word fun _ => by simp [Mark.next?, word?, words]

theorem denotes_bool (value : Bool) :
    Denotes (if value then "true" else "false").toList (.bool value) := by
  cases value <;> exact denotes_word fun _ => by simp [Mark.next?, word?, words]

/-- Every double is denoted by its text. -/
theorem denotes_double (x : Float) : Denotes (floatFormat.text x).toList (.float x) := by
  cases hValue : Decimal.Binary64.ofFloat x with
  | nan => exact denotes_word (next?_nan hValue)
  | infinity => exact denotes_word (next?_infinity hValue)
  | finite =>
      have hFinite := Decimal.isFinite_of_ofFloat hValue
      exact denotes_float (Decimal.isNaN_of_isFinite hFinite)
        fun _ => Decimal.readFloat?_text floatFormat hValue

end Scalars

section Arrays

variable {layout : Layout}

/-- Items behind the first one, each behind a comma. -/
theorem run_items {separator : List Char} (hSeparator : Around ',' separator)
    {texts : List String} {values : List Value}
    (hItems : List.Forall₂ (fun text value => Denotes text.toList value) texts values)
    {items : List Value} {outer : List Level} {value : Option Value} {rest : List Char}
    (hRest : StopsNumber rest) :
    Document.run ⟨.arrayItem items :: outer, value⟩
        (texts.flatMap (fun text => separator ++ text.toList) ++ rest) =
      Document.run ⟨.arrayItem (values.reverse ++ items) :: outer, value⟩ rest := by
  induction hItems generalizing items with
  | nil => rfl
  | @cons text item texts values hItem _ ih =>
      have hStops := stopsNumber_members hSeparator texts hRest
      rw [List.flatMap_cons, List.append_assoc, List.append_assoc,
        Document.run_around hSeparator (fun _ => rfl)]
      simp only [Document.feed, bind, Except.bind]
      rw [hItem _ _ rfl hStops]
      simp only [Document.place, bind, Except.bind]
      rw [ih, List.reverse_cons, List.append_assoc]
      rfl

/-- An array of items denotes their list. -/
theorem denotes_array (hReadable : layout.Readable) (level : Nat) {texts : List String}
    {values : List Value}
    (hItems : List.Forall₂ (fun text value => Denotes text.toList value) texts values) :
    Denotes (layout.bracket level "[" "]" texts).toList (.list values) := by
  intro document rest hAwaits hRest
  cases hItems with
  | nil =>
      have hText : (layout.bracket level "[" "]" []).toList ++ rest = '[' :: ']' :: rest := by
        simp [Layout.bracket]
      rw [hText, Document.run_of_next? rfl]
      simp only [Document.feed, Document.openLevel, hAwaits, if_true, bind, Except.bind]
      rw [Document.run_of_next? rfl]
      rfl
  | @cons first item texts values hFirst hOthers =>
      have hLine := isBlank_lineStart hReadable level
      have hInner := isBlank_lineStart hReadable (level + 1)
      have hSeparator := around_append_blank hReadable.itemSeparator hInner
      have hClose : StopsNumber ((layout.lineStart level).toList ++ ']' :: rest) :=
        stopsNumber_blank_append hLine (by simp [StopsNumber, endsNumber])
      rw [toList_bracket_append layout level '[' ']' rfl rfl, Document.run_of_next? rfl]
      simp only [Document.feed, Document.openLevel, hAwaits, if_true, bind, Except.bind]
      rw [Document.run_blank_append hInner,
        hFirst _ _ rfl (stopsNumber_members hSeparator texts hClose)]
      change Document.run ⟨.arrayItem [item] :: document.levels, document.value⟩ _ = _
      rw [run_items hSeparator hOthers hClose, Document.run_blank_append hLine,
        Document.run_of_next? rfl]
      have hItems : (values.reverse ++ [item]).reverse = item :: values := by simp
      simp only [Document.feed, hItems]
      rfl

/-- An object without members denotes no entries. -/
theorem denotes_empty_object (level : Nat) :
    Denotes (layout.bracket level "\x7b" "\x7d" []).toList (.dict []) := by
  intro document rest hAwaits hRest
  have hText : (layout.bracket level "\x7b" "\x7d" []).toList ++ rest =
      '\x7b' :: '\x7d' :: rest := by
    simp [Layout.bracket]
  rw [hText, Document.run_of_next? rfl]
  simp only [Document.feed, Document.openLevel, hAwaits, if_true, bind, Except.bind]
  rw [Document.run_of_next? rfl]
  rfl

end Arrays

theorem exists_writeAll {layout : Layout} {level : Nat} {items : List Value}
    (hItems : ∀ item ∈ items, ∃ text, write layout level item = .ok text ∧
      Denotes text.toList item) :
    ∃ texts, writeAll layout level items = .ok texts ∧
      List.Forall₂ (fun text value => Denotes text.toList value) texts items := by
  induction items with
  | nil => exact ⟨[], rfl, .nil⟩
  | cons item rest ih =>
      obtain ⟨hItem, hRest⟩ := List.forall_mem_cons.1 hItems
      obtain ⟨text, hText, hDenotes⟩ := hItem
      obtain ⟨texts, hTexts, hOthers⟩ := ih hRest
      refine ⟨text :: texts, ?_, .cons hDenotes hOthers⟩
      rw [writeAll, hText, hTexts]
      rfl

/-- The layout that no options are given for can be read. -/
theorem Layout.readable_default : ({} : Layout).Readable := by
  have hNone : IsBlank [] := by simp [IsBlank]
  have hBlank : IsBlank [' '] := by simp [IsBlank, isSpace]
  exact ⟨⟨[], [' '], hNone, hBlank, rfl⟩, ⟨[], [' '], hNone, hBlank, rfl⟩, by simp⟩

/-- What is written for a legible value denotes it. -/
theorem Legible.exists_write {layout : Layout} (hReadable : layout.Readable)
    (hFinite : layout.finiteOnly = false) (hSort : layout.sortKeys = false) {value : Value}
    (h : Legible value) (level : Nat) :
    ∃ text, write layout level value = .ok text ∧ Denotes text.toList value := by
  induction h generalizing level with
  | null => exact ⟨"null", rfl, denotes_null⟩
  | bool value => exact ⟨_, rfl, denotes_bool value⟩
  | @int value hShort => exact ⟨toString value, writeInt_of_isShort hShort, denotes_int hShort⟩
  | float x =>
      refine ⟨floatFormat.text x, ?_, denotes_double x⟩
      simp [write, writeFloat, hFinite]
  | text text => exact ⟨layout.quote text, rfl, denotes_quote layout.asciiOnly text⟩
  | list _ ih =>
      obtain ⟨texts, hTexts, hDenotes⟩ :=
        exists_writeAll fun item hItem => ih item hItem (level + 1)
      refine ⟨_, ?_, denotes_array hReadable level hDenotes⟩
      rw [write, hTexts]
      rfl
  | @dict entries hNodup _ ih =>
      have hGiven : List.Forall₂ WrittenEntry
          (entries.map fun entry => (entry.1, write layout (level + 1) entry.2)) entries := by
        rw [List.forall₂_map_left_iff, List.forall₂_same]
        exact fun entry hEntry => ⟨rfl, ih entry hEntry (level + 1)⟩
      obtain ⟨texts, hTexts, hMembers⟩ := exists_mapM_writeEntry layout hGiven
      refine ⟨layout.bracket level "\x7b" "\x7d" texts, ?_, ?_⟩
      · rw [write, writeEntries_eq, writeObject_eq hSort, hTexts]
        rfl
      · cases hMembers with
        | nil => exact denotes_empty_object level
        | cons hFirst hOthers =>
            exact denotes_object hReadable level (.cons hFirst hOthers) (by simp) hNodup

/-- A legible value is read back from its text. -/
theorem Legible.read_of_write {value : Value} (h : Legible value) {text : String}
    (hText : write {} 0 value = .ok text) : read text.toList = .ok value := by
  obtain ⟨written, hWritten, hDenotes⟩ := h.exists_write Layout.readable_default rfl rfl 0
  cases hWritten.symm.trans hText
  exact hDenotes.read_eq

end LispReader.Json
