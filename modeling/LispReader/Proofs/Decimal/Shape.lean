import Mathlib.Data.List.TakeDrop
import Mathlib.Data.List.TakeWhile
import LispReader.Lexeme.Rule

/-!
The shapes of written numbers as statements about texts: a whole number, a ratio and a double. The
tests of the library hold of just these texts.
-/

namespace LispReader

namespace Decimal

/-- An optional sign. -/
def IsSign (sign : List Char) : Prop :=
  sign = [] ∨ sign = ['+'] ∨ sign = ['-']

/-- An optional sign and digits. -/
def IntegerShape (text : List Char) : Prop :=
  ∃ sign digits, IsSign sign ∧ isDigits digits = true ∧ text = sign ++ digits

/-- A whole number and digits, with a slash between them. -/
def RatioShape (text : List Char) : Prop :=
  ∃ numerator denominator, IntegerShape numerator ∧ isDigits denominator = true ∧
    text = numerator ++ '/' :: denominator

/-- An exponent with its mark. -/
def ExponentShape (text : List Char) : Prop :=
  ∃ mark power, (mark = 'e' ∨ mark = 'E') ∧ IntegerShape power ∧ text = mark :: power

/-- A whole number and digits, with a point between them, and perhaps an exponent. -/
def FloatShape (text : List Char) : Prop :=
  ∃ whole fraction exponent, IntegerShape whole ∧ isDigits fraction = true ∧
    (exponent = [] ∨ ExponentShape exponent) ∧ text = whole ++ '.' :: (fraction ++ exponent)

section Span

variable {p : Char → Bool}

/-- A text is cut where a class of characters ends. -/
theorem span_eq_iff {text front rest : List Char} :
    text.span p = (front, rest) ↔
      text = front ++ rest ∧ (∀ c ∈ front, p c = true) ∧ ∀ c ∈ rest.head?, p c = false := by
  rw [List.span_eq_takeWhile_dropWhile, Prod.mk.injEq]
  constructor
  · rintro ⟨rfl, rfl⟩
    refine ⟨List.takeWhile_append_dropWhile.symm, fun c hc => List.mem_takeWhile_imp hc, ?_⟩
    intro c hc
    have hHead := List.head?_dropWhile_not p text
    simp_all
  · rintro ⟨rfl, hFront, hRest⟩
    rw [List.takeWhile_append_of_pos hFront, List.dropWhile_append_of_pos hFront]
    cases rest with
    | nil => simp
    | cons c rest => simp [hRest c rfl]

end Span

theorem isDigits_iff {text : List Char} :
    isDigits text = true ↔ text ≠ [] ∧ ∀ c ∈ text, c.isDigit = true := by
  simp [isDigits]

theorem takeSign_append {sign digits : List Char} (hSign : IsSign sign)
    (hDigits : ∀ c ∈ digits.head?, c.isDigit = true) :
    takeSign (sign ++ digits) = (sign == ['-'], digits) := by
  rcases hSign with rfl | rfl | rfl
  · cases digits with
    | nil => rfl
    | cons c digits =>
        have hDigit : c.isDigit = true := hDigits c rfl
        simp only [List.nil_append]
        unfold takeSign
        split <;> simp_all
  · rfl
  · rfl

/-- Digits begin with no sign. -/
theorem takeSign_of_isDigits {digits : List Char} (h : isDigits digits = true) :
    takeSign digits = (false, digits) := by
  apply takeSign_append (.inl rfl)
  exact fun c hc => (isDigits_iff.mp h).2 c (List.mem_of_mem_head? hc)

/-- What the sign is taken from. -/
theorem exists_isSign_append (text : List Char) :
    ∃ sign, IsSign sign ∧ text = sign ++ (takeSign text).2 := by
  unfold takeSign
  split
  · exact ⟨['-'], .inr (.inr rfl), rfl⟩
  · exact ⟨['+'], .inr (.inl rfl), rfl⟩
  · exact ⟨[], .inl rfl, rfl⟩

theorem isInteger_iff {text : List Char} : isInteger text = true ↔ IntegerShape text := by
  constructor
  · intro h
    obtain ⟨sign, hSign, hText⟩ := exists_isSign_append text
    exact ⟨sign, _, hSign, h, hText⟩
  · rintro ⟨sign, digits, hSign, hDigits, rfl⟩
    rw [isInteger, takeSign_append hSign fun c hc =>
      (isDigits_iff.mp hDigits).2 c (List.mem_of_mem_head? hc)]
    exact hDigits

/-- Digits and signs are all that stands in a whole number. -/
theorem IntegerShape.mem {text : List Char} (h : IntegerShape text) :
    ∀ c ∈ text, c.isDigit = true ∨ c = '+' ∨ c = '-' := by
  obtain ⟨sign, digits, hSign, hDigits, rfl⟩ := h
  intro c hc
  rcases List.mem_append.mp hc with hc | hc
  · rcases hSign with rfl | rfl | rfl <;> simp_all
  · exact .inl ((isDigits_iff.mp hDigits).2 c hc)

theorem IntegerShape.notMem {text : List Char} (h : IntegerShape text) {c : Char}
    (hDigit : c.isDigit = false) (hPlus : c ≠ '+') (hMinus : c ≠ '-') : c ∉ text := by
  intro hc
  rcases h.mem c hc with h | h | h <;> simp_all

theorem IntegerShape.ne_nil {text : List Char} (h : IntegerShape text) : text ≠ [] := by
  obtain ⟨sign, digits, -, hDigits, rfl⟩ := h
  simp [(isDigits_iff.mp hDigits).1]

theorem RatioShape.slash_mem {text : List Char} (h : RatioShape text) : '/' ∈ text := by
  obtain ⟨numerator, denominator, -, -, rfl⟩ := h
  simp

theorem isDigits_notMem {text : List Char} (h : isDigits text = true) {c : Char}
    (hDigit : c.isDigit = false) : c ∉ text := by
  intro hc
  have hMem := (isDigits_iff.mp h).2 c hc
  rw [hDigit] at hMem
  cases hMem

theorem FloatShape.slash_notMem {text : List Char} (h : FloatShape text) : '/' ∉ text := by
  obtain ⟨whole, fraction, exponent, hWhole, hFraction, hExponent, rfl⟩ := h
  have hNotWhole : '/' ∉ whole := hWhole.notMem rfl (by decide) (by decide)
  have hNotFraction : '/' ∉ fraction := isDigits_notMem hFraction rfl
  have hNotExponent : '/' ∉ exponent := by
    rcases hExponent with rfl | ⟨mark, power, rfl | rfl, hPower, rfl⟩
    · simp
    · simpa using hPower.notMem rfl (by decide) (by decide)
    · simpa using hPower.notMem rfl (by decide) (by decide)
  simp [hNotWhole, hNotFraction, hNotExponent]

theorem FloatShape.point_mem {text : List Char} (h : FloatShape text) : '.' ∈ text := by
  obtain ⟨whole, fraction, exponent, -, -, -, rfl⟩ := h
  simp

end Decimal

namespace Lexeme

open Decimal

/-- A ratio is cut at its slash. -/
theorem ratioParts?_eq_some_iff {text numerator denominator : List Char} :
    ratioParts? text = some (numerator, denominator) ↔
      IntegerShape numerator ∧ isDigits denominator = true ∧
        text = numerator ++ '/' :: denominator := by
  constructor
  · intro h
    unfold ratioParts? at h
    split at h
    · next front slash behind hSpan =>
        obtain ⟨hText, -, hSlash⟩ := span_eq_iff.mp hSpan
        obtain rfl : slash = '/' := by simpa using hSlash slash rfl
        split at h
        · next hShape =>
            obtain ⟨rfl, rfl⟩ := Prod.mk.inj (Option.some.inj h)
            rw [Bool.and_eq_true, isInteger_iff] at hShape
            exact ⟨hShape.1, hShape.2, hText⟩
        · cases h
    · cases h
  · rintro ⟨hNumerator, hDenominator, rfl⟩
    have hSpan : (numerator ++ '/' :: denominator).span (fun c => c != '/') =
        (numerator, '/' :: denominator) := by
      refine span_eq_iff.mpr ⟨rfl, ?_, by simp⟩
      intro c hc
      have hSlash : '/' ∉ numerator := hNumerator.notMem rfl (by decide) (by decide)
      simp only [bne_iff_ne, ne_eq]
      rintro rfl
      exact hSlash hc
    unfold ratioParts?
    rw [hSpan]
    simp [isInteger_iff.mpr hNumerator, hDenominator]

theorem ratioParts?_eq_none_iff {text : List Char} :
    ratioParts? text = none ↔ ¬ RatioShape text := by
  rw [← not_iff_not, ← ne_eq, Option.ne_none_iff_exists', not_not]
  constructor
  · rintro ⟨⟨numerator, denominator⟩, h⟩
    exact ⟨numerator, denominator, ratioParts?_eq_some_iff.mp h⟩
  · rintro ⟨numerator, denominator, h⟩
    exact ⟨(numerator, denominator), ratioParts?_eq_some_iff.mpr h⟩

theorem isDigits_of_isEmpty_eq_false {text : List Char} (h : text.isEmpty = false)
    (hDigits : ∀ c ∈ text, c.isDigit = true) : isDigits text = true :=
  isDigits_iff.mpr ⟨by simpa using h, hDigits⟩

/-- Whatever is taken apart as a double has the shape of one. -/
theorem floatShape_of_floatParts? {text : List Char} {parts : Parts}
    (h : floatParts? text = some parts) : FloatShape text := by
  obtain ⟨sign, hSign, hText⟩ := exists_isSign_append text
  unfold floatParts? Parts.ofText? at h
  generalize takeSign text = taken at h hText
  obtain ⟨negative, unsigned⟩ := taken
  rcases hCut : unsigned.span Char.isDigit with ⟨whole, behind⟩
  simp only [hCut] at h
  obtain ⟨rfl, hWhole, -⟩ := span_eq_iff.mp hCut
  split at h
  case h_2 => cases h
  rename_i found hFound
  split at h
  case isTrue => cases h
  rename_i hSome
  split at hFound
  · next _ rest =>
      rcases hCut : rest.span Char.isDigit with ⟨fraction, tail⟩
      simp only [hCut] at hFound
      obtain ⟨rfl, hFraction, -⟩ := span_eq_iff.mp hCut
      have hShape (hEmpty : (whole.isEmpty || fraction.isEmpty) = false)
          (hTail : tail = [] ∨ ExponentShape tail) : FloatShape text := by
        rw [Bool.or_eq_false_iff] at hEmpty
        exact ⟨sign ++ whole, fraction, tail,
          ⟨sign, whole, hSign, isDigits_of_isEmpty_eq_false hEmpty.1 hWhole, rfl⟩,
          isDigits_of_isEmpty_eq_false hEmpty.2 hFraction, hTail, by simpa using hText⟩
      split at hFound
      · cases hFound
      split at hFound
      · obtain rfl := Option.some.inj hFound
        exact hShape (by simpa using hSome) (.inl rfl)
      · next mark power _ =>
          split at hFound
          · next hExponent =>
              obtain rfl := Option.some.inj hFound
              exact hShape (by simpa using hSome)
                (.inr ⟨mark, power, hExponent.1, isInteger_iff.mp hExponent.2, rfl⟩)
          · cases hFound
  · -- Without a point there are no digits behind it.
    simp only at hFound
    split at hFound
    · cases hFound
    split at hFound
    · obtain rfl := Option.some.inj hFound
      simp at hSome
    · split at hFound
      · obtain rfl := Option.some.inj hFound
        simp at hSome
      · cases hFound

theorem floatParts?_of_floatShape {text : List Char} (h : FloatShape text) :
    ∃ parts, floatParts? text = some parts := by
  obtain ⟨whole, fraction, exponent, ⟨sign, digits, hSign, hDigits, rfl⟩, hFraction, hExponent,
    rfl⟩ := h
  rw [isDigits_iff] at hDigits hFraction
  have hTaken : takeSign (sign ++ (digits ++ '.' :: (fraction ++ exponent))) =
      (sign == ['-'], digits ++ '.' :: (fraction ++ exponent)) := by
    refine takeSign_append hSign ?_
    intro c hc
    obtain ⟨d, rest, hCons⟩ := List.exists_cons_of_ne_nil hDigits.1
    rw [hCons] at hDigits hc
    obtain rfl := Option.some.inj hc
    exact hDigits.2 d (by simp)
  have hWhole : (digits ++ '.' :: (fraction ++ exponent)).span Char.isDigit =
      (digits, '.' :: (fraction ++ exponent)) :=
    span_eq_iff.mpr ⟨rfl, hDigits.2, by simp⟩
  have hCut : (fraction ++ exponent).span Char.isDigit = (fraction, exponent) := by
    refine span_eq_iff.mpr ⟨rfl, hFraction.2, ?_⟩
    rcases hExponent with rfl | ⟨mark, power, rfl | rfl, -, rfl⟩ <;> simp
  unfold floatParts? Parts.ofText?
  rw [List.append_assoc, hTaken]
  simp only [hWhole, hCut]
  rcases hExponent with rfl | ⟨mark, power, hMark, hPower, rfl⟩
  · simp [hDigits.1, hFraction.1]
  · simp [hDigits.1, hFraction.1, hMark, isInteger_iff.mpr hPower]

theorem floatParts?_eq_none_iff {text : List Char} :
    floatParts? text = none ↔ ¬ FloatShape text := by
  rw [← not_iff_not, ← ne_eq, Option.ne_none_iff_exists', not_not]
  exact ⟨fun ⟨_, h⟩ => floatShape_of_floatParts? h, floatParts?_of_floatShape⟩

end Lexeme

end LispReader
