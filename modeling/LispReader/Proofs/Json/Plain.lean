import LispReader.Proofs.Json.Double
import LispReader.Proofs.Json.Quoted
import LispReader.Proofs.Json.Flat

/-!
The characters of a JSON text. Where a layout escapes everything outside of printable ASCII and has
no lines, what is written for a value, whatever the value holds, is made of printable ASCII
characters. So there is no line break in it.
-/

namespace LispReader.Json

open LispReader.Text

def IsPlainChar (c : Char) : Prop :=
  0x20 ≤ c.toNat ∧ c.toNat ≤ 0x7e

instance (c : Char) : Decidable (IsPlainChar c) :=
  inferInstanceAs (Decidable (_ ∧ _))

/-- A text of printable ASCII characters. -/
def IsPlain (text : List Char) : Prop :=
  ∀ c ∈ text, IsPlainChar c

instance (text : List Char) : Decidable (IsPlain text) :=
  decidable_of_iff (text.all fun c => decide (IsPlainChar c)) (by simp [IsPlain])

namespace IsPlain

@[simp]
theorem nil : IsPlain [] :=
  List.forall_mem_nil _

@[simp]
theorem append_iff {first second : List Char} :
    IsPlain (first ++ second) ↔ IsPlain first ∧ IsPlain second :=
  List.forall_mem_append

@[simp]
theorem cons_iff {c : Char} {rest : List Char} :
    IsPlain (c :: rest) ↔ IsPlainChar c ∧ IsPlain rest :=
  List.forall_mem_cons

theorem flatMap {α : Type} {items : List α} {f : α → List Char} (h : ∀ a ∈ items, IsPlain (f a)) :
    IsPlain (items.flatMap f) := by
  intro c hc
  obtain ⟨a, ha, hMem⟩ := List.mem_flatMap.1 hc
  exact h a ha c hMem

theorem of_isDigits {digits : List Char} (h : Decimal.isDigits digits = true) : IsPlain digits := by
  intro c hc
  have hDigit := (Decimal.isDigits_iff.1 h).2 c hc
  have hCode : 48 ≤ c.toNat ∧ c.toNat ≤ 57 := by
    simpa [Char.isDigit, UInt32.le_iff_toNat_le] using hDigit
  exact ⟨by omega, by omega⟩

theorem of_isSign {sign : List Char} (h : Decimal.IsSign sign) : IsPlain sign := by
  obtain rfl | rfl | rfl := h <;> decide

theorem newline_notMem {text : List Char} (h : IsPlain text) : '\n' ∉ text := by
  intro hMem
  exact absurd (h _ hMem).1 (by decide)

end IsPlain

theorem plain_escapeUnit (unit : Nat) : IsPlain (escapeUnit unit) := by
  have hDigit : ∀ digit < 16, IsPlainChar (Nat.digitChar digit) := by decide
  have hPlace (count : Nat) : IsPlainChar (Nat.digitChar (count % 16)) :=
    hDigit _ (Nat.mod_lt count (by decide))
  have hMarks : IsPlainChar '\\' ∧ IsPlainChar 'u' := by decide
  rw [escapeUnit, hexDigits_four]
  simp [hPlace, hMarks]

theorem plain_escapeChar (c : Char) : IsPlain (escapeChar true c) := by
  unfold escapeChar
  split
  · next letter hShort =>
      unfold shortEscape? at hShort
      split at hShort <;> cases hShort <;> decide
  · split
    · exact .flatMap fun unit _ => plain_escapeUnit unit
    · next hSelf =>
        have hCode : IsPlainChar c := by
          simp only [needsEscape, Bool.true_and, Bool.or_eq_true, decide_eq_true_eq] at hSelf
          exact ⟨by omega, by omega⟩
        simpa using hCode

theorem plain_quote (text : String) : IsPlain (quote true text).toList := by
  have hBody : IsPlain (text.toList.flatMap (escapeChar true)) :=
    .flatMap fun c _ => plain_escapeChar c
  have hMark : IsPlainChar '"' := by decide
  simp [quote, hBody, hMark]

theorem plain_int (value : Int) : IsPlain (toString value).toList := by
  obtain ⟨sign, digits, hSign, hDigits, hText⟩ := Decimal.integerShape_written value
  change IsPlain (Decimal.written value)
  rw [hText, IsPlain.append_iff]
  exact ⟨.of_isSign hSign, .of_isDigits hDigits⟩

theorem IsReal.plain {text : List Char} (h : IsReal text) : IsPlain text := by
  obtain ⟨minus, whole, fraction, exponent, hMinus, hWhole, hFraction, hExponent, -, rfl⟩ := h
  simp only [IsPlain.append_iff]
  refine ⟨⟨⟨?_, .of_isDigits hWhole.isDigits⟩, ?_⟩, ?_⟩
  · obtain rfl | rfl := hMinus <;> decide
  · obtain rfl | ⟨digits, hDigits, rfl⟩ := hFraction
    · simp
    · exact IsPlain.cons_iff.2 ⟨by decide, .of_isDigits hDigits⟩
  · obtain rfl | ⟨sign, digits, hSign, hDigits, rfl⟩ := hExponent
    · simp
    · exact IsPlain.cons_iff.2
        ⟨by decide, IsPlain.append_iff.2 ⟨.of_isSign hSign, .of_isDigits hDigits⟩⟩

theorem plain_float (x : Float) : IsPlain (floatFormat.text x).toList := by
  cases hValue : Decimal.Binary64.ofFloat x with
  | nan => simp only [Decimal.FloatFormat.text, hValue]; decide
  | infinity negative =>
      simp only [Decimal.FloatFormat.text, hValue]
      cases negative <;> decide
  | finite negative significand exponent => exact (isReal_text floatFormat hValue).plain

/-- A layout in one line, with nothing but printable ASCII between items and behind keys. -/
structure Layout.Plain (layout : Layout) : Prop where
  asciiOnly : layout.asciiOnly = true
  indent : layout.indent = none
  item : IsPlain layout.itemSeparator.toList
  key : IsPlain layout.keySeparator.toList

/-- Whatever is written, it is plain. -/
def WritesPlain (written : Except WriteFault String) : Prop :=
  ∀ text, written = .ok text → IsPlain text.toList

theorem WritesPlain.ok {text : String} (h : IsPlain text.toList) : WritesPlain (.ok text) := by
  rintro _ ⟨⟩
  exact h

theorem WritesPlain.map {α : Type} {written : Except WriteFault α} {f : α → String}
    (h : ∀ a, written = .ok a → IsPlain (f a).toList) : WritesPlain (f <$> written) := by
  intro text hText
  cases written with
  | error fault => cases hText
  | ok a =>
      cases hText
      exact h a rfl

section

variable {layout : Layout} (hPlain : layout.Plain)
include hPlain

theorem Layout.Plain.quote (text : String) : IsPlain (layout.quote text).toList := by
  rw [Layout.quote, hPlain.asciiOnly]
  exact plain_quote text

theorem plain_bracket (level : Nat) {opening closing : String} {items : List String}
    (hOpening : IsPlain opening.toList) (hClosing : IsPlain closing.toList)
    (hItems : ∀ item ∈ items, IsPlain item.toList) :
    IsPlain (layout.bracket level opening closing items).toList := by
  have hStart (level : Nat) : layout.lineStart level = "" := by
    simp [Layout.lineStart, hPlain.indent]
  unfold Layout.bracket
  cases items with
  | nil => simp [hOpening, hClosing]
  | cons first others =>
      obtain ⟨hFirst, hOthers⟩ := List.forall_mem_cons.1 hItems
      have hJoin : IsPlain ((others.map (layout.itemSeparator ++ ·)).flatMap String.toList) := by
        refine .flatMap fun text hText => ?_
        obtain ⟨item, hItem, rfl⟩ := List.mem_map.1 hText
        simp [hPlain.item, hOthers item hItem]
      simp [hStart, intercalate_cons, hOpening, hClosing, hFirst, hJoin]

theorem plain_writeObject (level : Nat) {entries : List (String × Except WriteFault String)}
    (hEntries : ∀ entry ∈ entries, WritesPlain entry.2) :
    WritesPlain (writeObject layout level entries) := by
  have hOrdered (entries' : List (String × Except WriteFault String))
      (hMem : ∀ entry ∈ entries', entry ∈ entries) :
      WritesPlain (layout.bracket level "\x7b" "\x7d" <$> entries'.mapM (writeEntry layout)) := by
    refine .map fun items hItems => plain_bracket hPlain level (by decide) (by decide) ?_
    intro item hItem
    obtain ⟨entry, hEntry, hWritten⟩ := exists_of_mem_mapM hItems hItem
    refine WritesPlain.map (fun text hText => ?_) item hWritten
    simp [hPlain.quote, hPlain.key, hEntries entry (hMem entry hEntry) text hText]
  unfold writeObject
  split
  · exact hOrdered _ fun entry hEntry => (List.mergeSort_perm ..).mem_iff.1 hEntry
  · exact hOrdered _ fun entry hEntry => hEntry

/-- A key is quoted, whatever its text is. -/
theorem plain_writeMapping (level : Nat) {entries : List (Value × Except WriteFault String)}
    (hEntries : ∀ entry ∈ entries, WritesPlain entry.2) :
    WritesPlain (writeMapping layout level entries) := by
  have hOrdered (entries' : List (Value × Except WriteFault String))
      (hMem : ∀ entry ∈ entries', entry ∈ entries) :
      WritesPlain (layout.bracket level "\x7b" "\x7d" <$> entries'.mapM fun entry => do
        let name ← keyText layout entry.1
        return layout.quote name ++ layout.keySeparator ++ (← entry.2)) := by
    refine .map fun items hItems => plain_bracket hPlain level (by decide) (by decide) ?_
    intro item hItem
    obtain ⟨entry, hEntry, hWritten⟩ := exists_of_mem_mapM hItems hItem
    cases hKey : keyText layout entry.1 with
    | error fault =>
        rw [hKey] at hWritten
        cases hWritten
    | ok name =>
        cases hValue : entry.2 with
        | error fault =>
            rw [hKey, hValue] at hWritten
            cases hWritten
        | ok text =>
            rw [hKey, hValue] at hWritten
            cases hWritten
            simp [hPlain.quote, hPlain.key, hEntries entry (hMem entry hEntry) text hValue]
  unfold writeMapping
  split
  · cases hSorted : Value.sortByKey entries with
    | error fault => exact fun _ hText => nomatch hText
    | ok sorted => exact hOrdered sorted fun entry hEntry => Value.mem_of_sortByKey hSorted hEntry
  · exact hOrdered entries fun entry hEntry => hEntry

theorem plain_writeRecord (level : Nat) (kind : Token.Kind)
    {values : List (Except WriteFault String)} (hValues : ∀ value ∈ values, WritesPlain value) :
    WritesPlain (writeRecord layout level kind values) := by
  refine plain_writeObject hPlain level (List.forall_mem_cons.2 ⟨.ok (hPlain.quote _), ?_⟩)
  intro entry hEntry
  exact hValues entry.2 (List.of_mem_zip hEntry).2

end

variable {layout : Layout}

mutual

/-- What is written for a value is plain, whatever the value holds. -/
theorem plain_write (hPlain : layout.Plain) (level : Nat) (value : Value) :
    WritesPlain (write layout level value) := by
  match value with
  | .null => exact .ok (by decide)
  | .bool value => cases value <;> exact .ok (by decide)
  | .int value =>
      rw [write, writeInt]
      split
      · exact .ok (plain_int value)
      · exact fun _ hText => nomatch hText
  | .float x =>
      rw [write, writeFloat]
      split
      · exact fun _ hText => nomatch hText
      · exact .ok (plain_float x)
  | .text text => exact .ok (hPlain.quote text)
  | .list items | .tuple items =>
      refine .map fun texts hTexts => plain_bracket hPlain level (by decide) (by decide) ?_
      exact plain_writeAll hPlain (level + 1) items texts hTexts
  | .dict entries =>
      exact plain_writeObject hPlain level (plain_writeEntries hPlain (level + 1) entries)
  | .mapping entries =>
      exact plain_writeMapping hPlain level (plain_writeMembers hPlain (level + 1) entries)
  | .bytes _ | .object => exact fun _ hText => nomatch hText
  | .token form =>
      rw [write]
      split
      · exact plain_writeToken hPlain level form
      · exact fun _ hText => nomatch hText

theorem plain_writeAll (hPlain : layout.Plain) (level : Nat) (items : List Value)
    (texts : List String) (hTexts : writeAll layout level items = .ok texts) :
    ∀ text ∈ texts, IsPlain text.toList := by
  match items with
  | [] =>
      cases hTexts
      simp
  | item :: rest =>
      rw [writeAll_eq] at hTexts
      obtain ⟨first, others, hFirst, hOthers, rfl⟩ := mapM_cons_eq_ok_iff.1 hTexts
      rw [← writeAll_eq] at hOthers
      exact List.forall_mem_cons.2
        ⟨plain_write hPlain level item first hFirst,
          plain_writeAll hPlain level rest others hOthers⟩

theorem plain_writeEntries (hPlain : layout.Plain) (level : Nat) (entries : List (String × Value)) :
    ∀ entry ∈ writeEntries layout level entries, WritesPlain entry.2 := by
  match entries with
  | [] => simp [writeEntries]
  | (key, value) :: rest =>
      rw [writeEntries]
      exact List.forall_mem_cons.2
        ⟨plain_write hPlain level value, plain_writeEntries hPlain level rest⟩

theorem plain_writeMembers (hPlain : layout.Plain) (level : Nat) (entries : List (Value × Value)) :
    ∀ entry ∈ writeMembers layout level entries, WritesPlain entry.2 := by
  match entries with
  | [] => simp [writeMembers]
  | (key, value) :: rest =>
      rw [writeMembers]
      exact List.forall_mem_cons.2
        ⟨plain_write hPlain level value, plain_writeMembers hPlain level rest⟩

theorem plain_writeToken (hPlain : layout.Plain) (level : Nat) (form : Form) :
    WritesPlain (writeToken layout level form) := by
  match form with
  | .integer value | .float value | .string value | .symbol value | .quotePrefix value =>
      refine plain_writeRecord hPlain level _ ?_
      simpa using plain_write hPlain (level + 1) value
  | .rational first second | .comment first second =>
      refine plain_writeRecord hPlain level _ ?_
      simpa using ⟨plain_write hPlain (level + 1) first, plain_write hPlain (level + 1) second⟩
  | .cons head tail =>
      refine plain_writeRecord hPlain level _ ?_
      simpa using
        ⟨plain_writeToken hPlain (level + 1) head, plain_writeToken hPlain (level + 1) tail⟩
  | .nil | .emptyList | .listStart | .listEnd | .dot =>
      exact plain_writeRecord hPlain level _ (by simp)

end

end LispReader.Json
