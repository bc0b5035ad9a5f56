import Mathlib.Tactic.IntervalCases
import LispReader.Json.Mark
import LispReader.Json.Quoted

/-!
Texts between quotes and back. Every character is written as some escapes or as itself, and what
is read for them are units that join to the character again: the units of its surrogates where it
is escaped by number, and its own number where it stands for itself.
-/

namespace LispReader.Json

open LispReader.Text

theorem hexDigit?_digitChar {digit : Nat} (hDigit : digit < 16) :
    hexDigit? (Nat.digitChar digit) = some digit := by
  interval_cases digit <;> rfl

theorem hexDigits_four (unit : Nat) :
    hexDigits 4 unit = [Nat.digitChar (unit / 4096 % 16), Nat.digitChar (unit / 256 % 16),
      Nat.digitChar (unit / 16 % 16), Nat.digitChar (unit % 16)] := by
  simp [hexDigits, List.range_succ]

/-- The digits of a unit name it. -/
theorem namedUnit?_digits {unit : Nat} (hUnit : unit < 0x10000) :
    namedUnit? (Nat.digitChar (unit / 4096 % 16)) (Nat.digitChar (unit / 256 % 16))
      (Nat.digitChar (unit / 16 % 16)) (Nat.digitChar (unit % 16)) = some unit := by
  simp only [namedUnit?, hexDigit?_digitChar (Nat.mod_lt _ (by decide : 16 > 0)), bind, Option.bind,
    pure, Option.some.injEq]
  omega

/-- The units of a text that stand in front of those of the text behind it. -/
def behindUnits (units : List Nat) (read : Option (List Nat × List Char)) :
    Option (List Nat × List Char) :=
  read.map fun (others, rest) => (units ++ others, rest)

theorem stringUnits?_escapeUnit {unit : Nat} (hUnit : unit < 0x10000) (rest : List Char) :
    stringUnits? (escapeUnit unit ++ rest) = behindUnits [unit] (stringUnits? rest) := by
  rw [escapeUnit, hexDigits_four]
  simp only [List.cons_append, List.nil_append, stringUnits?, namedUnit?_digits hUnit]
  cases stringUnits? rest <;> rfl

theorem stringUnits?_escapeUnits {units : List Nat} (hUnits : ∀ unit ∈ units, unit < 0x10000)
    (rest : List Char) :
    stringUnits? (units.flatMap escapeUnit ++ rest) = behindUnits units (stringUnits? rest) := by
  induction units with
  | nil =>
      cases h : stringUnits? rest <;> simp [behindUnits, h]
  | cons unit others ih =>
      obtain ⟨hUnit, hOthers⟩ := List.forall_mem_cons.1 hUnits
      rw [List.flatMap_cons, List.append_assoc, stringUnits?_escapeUnit hUnit, ih hOthers]
      cases stringUnits? rest <;> rfl

theorem units16_lt (c : Char) : ∀ unit ∈ units16 c, unit < 0x10000 := by
  have hValid : c.toNat < 0xD800 ∨ 0xDFFF < c.toNat ∧ c.toNat < 0x110000 := c.valid
  intro unit hUnit
  unfold units16 at hUnit
  split at hUnit <;> simp at hUnit <;> omega

/-- A short escape is a backslash and a letter for the character. -/
theorem unescape?_of_shortEscape? {c letter : Char} (hShort : shortEscape? c = some letter) :
    unescape? letter = some c ∧ letter ≠ 'u' := by
  unfold shortEscape? at hShort
  split at hShort <;> cases hShort <;> exact ⟨rfl, by decide⟩

theorem stringUnits?_shortEscape {c letter : Char} (hShort : shortEscape? c = some letter)
    (rest : List Char) :
    stringUnits? ('\\' :: letter :: rest) = behindUnits [c.toNat] (stringUnits? rest) := by
  obtain ⟨hLetter, hNumbered⟩ := unescape?_of_shortEscape? hShort
  rw [stringUnits?]
  · simp only [hLetter]
    cases stringUnits? rest <;> rfl
  · exact fun _ _ _ _ _ hLetter => absurd hLetter hNumbered

theorem stringUnits?_self {c : Char} (hShort : shortEscape? c = none) (hControl : 0x20 ≤ c.toNat)
    (rest : List Char) :
    stringUnits? (c :: rest) = behindUnits [c.toNat] (stringUnits? rest) := by
  have hQuote : c ≠ '"' := by
    rintro rfl
    cases hShort
  have hBackslash : c ≠ '\\' := by
    rintro rfl
    cases hShort
  rw [stringUnits?]
  · rw [if_neg (by omega)]
    cases stringUnits? rest <;> rfl
  all_goals simp_all

/-- A number that is a character stands for it, even in front of the other half of a pair. -/
theorem joinUnits_toNat_cons (c : Char) (others : List Nat) :
    joinUnits (c.toNat :: others) = c :: joinUnits others := by
  have hValid : c.toNat < 0xD800 ∨ 0xDFFF < c.toNat ∧ c.toNat < 0x110000 := c.valid
  have hHigh : isHighSurrogate c.toNat = false := by
    simp only [isHighSurrogate, Bool.and_eq_false_iff, decide_eq_false_iff_not]
    omega
  cases others <;> simp [joinUnits, hHigh, charOfUnit_toNat]

/-- What is written for a character is read as units that join to it. -/
theorem exists_units_escapeChar (asciiOnly : Bool) (c : Char) :
    ∃ units, (∀ rest, stringUnits? (escapeChar asciiOnly c ++ rest) =
        behindUnits units (stringUnits? rest)) ∧
      ∀ others, joinUnits (units ++ others) = c :: joinUnits others := by
  unfold escapeChar
  cases hShort : shortEscape? c with
  | some letter =>
      exact ⟨[c.toNat], stringUnits?_shortEscape hShort, joinUnits_toNat_cons c⟩
  | none =>
      by_cases hEscape : needsEscape asciiOnly c = true
      · refine ⟨units16 c, fun rest => ?_, joinUnits_units16_append c⟩
        simp only [hEscape, if_true]
        exact stringUnits?_escapeUnits (units16_lt c) rest
      · have hControl : 0x20 ≤ c.toNat := by
          simp only [needsEscape, Bool.or_eq_true, decide_eq_true_eq] at hEscape
          omega
        refine ⟨[c.toNat], fun rest => ?_, joinUnits_toNat_cons c⟩
        simp only [hEscape, Bool.false_eq_true, if_false]
        exact stringUnits?_self hShort hControl rest

/-- A quoted text is read up to its closing quote, and gives the text. -/
theorem exists_stringUnits?_escaped (asciiOnly : Bool) (text rest : List Char) :
    ∃ units, stringUnits? (text.flatMap (escapeChar asciiOnly) ++ '"' :: rest) =
        some (units, rest) ∧ joinUnits units = text := by
  induction text with
  | nil => exact ⟨[], by simp [stringUnits?], rfl⟩
  | cons c behind ih =>
      obtain ⟨others, hOthers, hText⟩ := ih
      obtain ⟨units, hUnits, hJoin⟩ := exists_units_escapeChar asciiOnly c
      refine ⟨units ++ others, ?_, by rw [hJoin, hText]⟩
      rw [List.flatMap_cons, List.append_assoc, hUnits, hOthers]
      rfl

theorem toList_quote (asciiOnly : Bool) (text : String) :
    (quote asciiOnly text).toList =
      '"' :: (text.toList.flatMap (escapeChar asciiOnly) ++ ['"']) := by
  simp [quote]

/-- A quoted text is one mark, the text itself. -/
theorem next?_quote (asciiOnly : Bool) (text : String) (rest : List Char) :
    Mark.next? ((quote asciiOnly text).toList ++ rest) = some (.string text, rest) := by
  obtain ⟨units, hUnits, hText⟩ := exists_stringUnits?_escaped asciiOnly text.toList rest
  have hFront : (quote asciiOnly text).toList ++ rest =
      '"' :: (text.toList.flatMap (escapeChar asciiOnly) ++ '"' :: rest) := by
    simp [toList_quote]
  rw [hFront, Mark.next?, hUnits]
  simp only [hText, String.ofList_toList]

end LispReader.Json
