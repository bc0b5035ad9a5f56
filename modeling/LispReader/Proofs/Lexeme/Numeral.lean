import Mathlib.Data.List.Induction
import Mathlib.Data.Nat.Digits.Defs
import LispReader.Proofs.Lexeme.Oversize

/-!
Numerals and the numbers they stand for. The digits of a numeral count by their places, and a lexeme
that is a numeral means just that number if it fits into 64 bits. A ratio means its two numbers as
they are written; nothing is cancelled. What does not fit is refused, and no other rule gets to see
it.
-/

namespace LispReader

open Decimal

namespace Decimal

/-- What a digit counts. -/
def digitValue (c : Char) : Nat :=
  c.toNat - '0'.toNat

/-- What digits count by their places, the last one in the place of the ones. -/
def placeValue (digits : List Char) : Nat :=
  Nat.ofDigits 10 (digits.reverse.map digitValue)

theorem placeValue_concat (front : List Char) (c : Char) :
    placeValue (front ++ [c]) = digitValue c + 10 * placeValue front := by
  rw [placeValue, List.reverse_append, List.reverse_singleton, List.singleton_append,
    List.map_cons, Nat.ofDigits_cons, placeValue]

/-- Going through digits from the left gives what they count by their places. -/
theorem digitsValue_eq_placeValue (digits : List Char) :
    digitsValue digits = placeValue digits := by
  induction digits using List.reverseRecOn with
  | nil => rfl
  | append_singleton front c ih =>
      rw [placeValue_concat, ← ih, digitsValue, List.foldl_append, Nat.add_comm]
      rfl

/-- A text that is a numeral of a whole number: digits, and perhaps a sign in front of them. -/
inductive Numeral : List Char → Int → Prop where
  | unsigned {digits : List Char} (digital : isDigits digits = true) :
      Numeral digits (placeValue digits)
  | plus {digits : List Char} (digital : isDigits digits = true) :
      Numeral ('+' :: digits) (placeValue digits)
  | minus {digits : List Char} (digital : isDigits digits = true) :
      Numeral ('-' :: digits) (-(placeValue digits : Int))

/-- A text that is a numeral, a slash and digits, with the two numbers in it. -/
inductive Ratio : List Char → Int → Int → Prop where
  | mk {numerator denominator : List Char} {upper : Int} (first : Numeral numerator upper)
      (second : isDigits denominator = true) :
      Ratio (numerator ++ '/' :: denominator) upper (placeValue denominator)

theorem integerValue_of_isDigits {digits : List Char} (h : isDigits digits = true) :
    integerValue digits = placeValue digits := by
  simp [integerValue, takeSign_of_isDigits h, digitsValue_eq_placeValue]

theorem integerValue_plus (digits : List Char) :
    integerValue ('+' :: digits) = placeValue digits := by
  simp [integerValue, takeSign, digitsValue_eq_placeValue]

theorem integerValue_minus (digits : List Char) :
    integerValue ('-' :: digits) = -(placeValue digits : Int) := by
  simp [integerValue, takeSign, digitsValue_eq_placeValue]

theorem numeral_iff {text : List Char} {number : Int} :
    Numeral text number ↔ IntegerShape text ∧ integerValue text = number := by
  constructor
  · intro h
    cases h with
    | unsigned digital =>
        exact ⟨⟨[], text, .inl rfl, digital, rfl⟩, integerValue_of_isDigits digital⟩
    | @plus digits digital =>
        exact ⟨⟨['+'], digits, .inr (.inl rfl), digital, rfl⟩, integerValue_plus digits⟩
    | @minus digits digital =>
        exact ⟨⟨['-'], digits, .inr (.inr rfl), digital, rfl⟩, integerValue_minus digits⟩
  · rintro ⟨⟨sign, digits, rfl | rfl | rfl, hDigits, rfl⟩, rfl⟩
    · rw [integerValue_of_isDigits hDigits]
      exact .unsigned hDigits
    · rw [List.singleton_append, integerValue_plus]
      exact .plus hDigits
    · rw [List.singleton_append, integerValue_minus]
      exact .minus hDigits

theorem ratio_iff {text : List Char} {upper lower : Int} :
    Ratio text upper lower ↔ ∃ numerator denominator, IntegerShape numerator ∧
      isDigits denominator = true ∧ text = numerator ++ '/' :: denominator ∧
      integerValue numerator = upper ∧ integerValue denominator = lower := by
  constructor
  · rintro ⟨first, second⟩
    obtain ⟨hShape, hValue⟩ := numeral_iff.mp first
    exact ⟨_, _, hShape, second, rfl, hValue, integerValue_of_isDigits second⟩
  · rintro ⟨numerator, denominator, hNumerator, hDenominator, rfl, rfl, rfl⟩
    rw [integerValue_of_isDigits hDenominator]
    exact .mk (numeral_iff.mpr ⟨hNumerator, rfl⟩) hDenominator

end Decimal

namespace Lexeme

variable {text : List Char}

theorem readWord_of_isWord {digits : List Char} (hShort : ¬ TooLong digits)
    (h : IsWord (integerValue digits)) (lexeme : List Char) :
    readWord digits lexeme = .ok (integerValue digits) :=
  readWord_eq_ok_iff.mpr ⟨Nat.le_of_not_lt hShort, rfl, h⟩

/-- A text means a whole number if it is a numeral of the number, and the number fits. -/
theorem classify_eq_integer_iff (hShort : ¬ Oversize text) {value : Value} :
    classify text = .ok (.integer value) ↔
      ∃ number, Numeral text number ∧ IsWord number ∧ value = .int number := by
  constructor
  · intro h
    obtain ⟨rule, quoted, -, hAttempt⟩ := exists_of_classify_eq_ok h
    cases Rule.gives_of_attempt hAttempt with
    | @integer number shape read =>
        obtain ⟨-, hValue, hWord⟩ := readWord_eq_ok_iff.mp read
        exact ⟨number, numeral_iff.mpr ⟨isInteger_iff.mp shape, hValue⟩, hWord, rfl⟩
    | functionQuote _ applied | quote _ applied =>
        rcases cases_of_applyQuote applied with hForm | ⟨inner, -, -, hForm⟩ <;> cases hForm
  · rintro ⟨number, hNumeral, hWord, rfl⟩
    obtain ⟨hShape, rfl⟩ := numeral_iff.mp hNumeral
    have hDigits : ¬ TooLong text := fun hLong => hShort (.integer hShape hLong)
    rw [classify_of_integerShape hShape, readWord_of_isWord hDigits hWord]
    rfl

/-- A text means a ratio if it is a ratio of two numbers that fit. -/
theorem classify_eq_rational_iff (hShort : ¬ Oversize text) {first second : Value} :
    classify text = .ok (.rational first second) ↔
      ∃ upper lower, Ratio text upper lower ∧ IsWord upper ∧ IsWord lower ∧
        first = .int upper ∧ second = .int lower := by
  constructor
  · intro h
    obtain ⟨rule, quoted, -, hAttempt⟩ := exists_of_classify_eq_ok h
    cases Rule.gives_of_attempt hAttempt with
    | @rational numerator denominator upper lower parts hFirst hSecond =>
        obtain ⟨hNumerator, hDenominator, hText⟩ := ratioParts?_eq_some_iff.mp parts
        obtain ⟨-, hUpper, hUpperWord⟩ := readWord_eq_ok_iff.mp hFirst
        obtain ⟨-, hLower, hLowerWord⟩ := readWord_eq_ok_iff.mp hSecond
        have hRatio : Ratio text upper lower :=
          ratio_iff.mpr ⟨_, _, hNumerator, hDenominator, hText, hUpper, hLower⟩
        exact ⟨upper, lower, hRatio, hUpperWord, hLowerWord, rfl, rfl⟩
    | functionQuote _ applied | quote _ applied =>
        rcases cases_of_applyQuote applied with hForm | ⟨inner, -, -, hForm⟩ <;> cases hForm
  · rintro ⟨upper, lower, hRatio, hUpper, hLower, rfl, rfl⟩
    obtain ⟨numerator, denominator, hNumerator, hDenominator, rfl, rfl, rfl⟩ :=
      ratio_iff.mp hRatio
    have hFirst : ¬ TooLong numerator := fun hLong =>
      hShort (.ratio hNumerator hDenominator (.inl hLong))
    have hSecond : ¬ TooLong denominator := fun hLong =>
      hShort (.ratio hNumerator hDenominator (.inr hLong))
    rw [classify_of_ratio hNumerator hDenominator, readWord_of_isWord hFirst hUpper,
      readWord_of_isWord hSecond hLower]
    rfl

/-- With no more digits than are converted, a text means a whole number if it is a numeral of it,
and a ratio if it is a ratio of two numbers, as long as the numbers fit into 64 bits. A numeral or a
ratio that does not fit is refused as a whole, and is no symbol. -/
theorem classify_numeral (hShort : ¬ Oversize text) :
    (∀ value, classify text = .ok (.integer value) ↔
      ∃ number, Numeral text number ∧ IsWord number ∧ value = .int number) ∧
    (∀ first second, classify text = .ok (.rational first second) ↔
      ∃ upper lower, Ratio text upper lower ∧ IsWord upper ∧ IsWord lower ∧
        first = .int upper ∧ second = .int lower) ∧
    ((∃ number, Numeral text number ∧ ¬ IsWord number) ∨
        (∃ upper lower, Ratio text upper lower ∧ ¬ (IsWord upper ∧ IsWord lower)) →
      Refused text ∧ ∀ name, classify text ≠ .ok (.symbol name)) := by
  refine ⟨fun value => classify_eq_integer_iff hShort,
    fun first second => classify_eq_rational_iff hShort, fun hLarge => ?_⟩
  have hRange : OutOfRange text := by
    rcases hLarge with ⟨number, hNumeral, hLarge⟩ | ⟨upper, lower, hRatio, hLarge⟩
    · obtain ⟨hShape, rfl⟩ := numeral_iff.mp hNumeral
      exact .integer hShape hLarge
    · obtain ⟨numerator, denominator, hNumerator, hDenominator, rfl, rfl, rfl⟩ :=
        ratio_iff.mp hRatio
      exact .ratio hNumerator hDenominator (not_and_or.mp hLarge)
  have hRefused : Refused text := refused_of_outOfRange hRange hShort
  exact ⟨hRefused, fun name => hRefused.ne_ok _⟩

/-- The numerator here is the least number that fits, the denominator has zeros in front, and four
goes into both. -/
theorem classify_numeral_of_least_ratio :
    let text := ['-', '9', '2', '2', '3', '3', '7', '2', '0', '3', '6', '8', '5', '4', '7', '7',
      '5', '8', '0', '8', '/', '0', '0', '4']
    ¬ Oversize text ∧
      classify text = .ok (.rational (.int (-9223372036854775808)) (.int 4)) := by
  intro text
  have hShort : ¬ Oversize text := fun h => absurd h.digitLimit_lt_length (by decide)
  have hRatio : Ratio text (-9223372036854775808) 4 :=
    @Ratio.mk (text.take 20) (text.drop 21) _ (.minus rfl) rfl
  refine ⟨hShort, ((classify_numeral hShort).2.1 _ _).mpr ?_⟩
  exact ⟨_, _, hRatio, by decide, by decide, rfl, rfl⟩

end Lexeme

end LispReader
