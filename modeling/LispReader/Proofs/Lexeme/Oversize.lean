import LispReader.Proofs.Decimal.Written
import LispReader.Proofs.Lexeme.Outcome

/-!
Numerals that do not fit. A whole number, or a part of a ratio, that lies outside of 64 bits is at
fault as a lexeme, and so is a double that is not finite. Before that is found a whole number has to
be converted, and one with too many digits is not: that is a failure of another kind, without a
report.
-/

namespace LispReader

open Decimal

namespace Decimal

/-- A whole number with more digits than are converted. -/
def TooLong (text : List Char) : Prop :=
  digitLimit < (takeSign text).2.length

end Decimal

namespace Lexeme

/-- A numeral with a whole number in it that has more digits than are converted. -/
inductive Oversize : List Char → Prop where
  | integer {text : List Char} (shape : IntegerShape text) (long : TooLong text) : Oversize text
  | ratio {numerator denominator : List Char} (shape : IntegerShape numerator)
      (digits : isDigits denominator = true) (long : TooLong numerator ∨ TooLong denominator) :
      Oversize (numerator ++ '/' :: denominator)

/-- A whole number of 64 bits. -/
def IsWord (value : Int) : Prop :=
  leastWord ≤ value ∧ value ≤ greatestWord

instance (value : Int) : Decidable (IsWord value) :=
  inferInstanceAs (Decidable (_ ∧ _))

/-- A numeral that denotes a number outside of 64 bits. -/
inductive OutOfRange : List Char → Prop where
  | integer {text : List Char} (shape : IntegerShape text) (large : ¬ IsWord (integerValue text)) :
      OutOfRange text
  | ratio {numerator denominator : List Char} (shape : IntegerShape numerator)
      (digits : isDigits denominator = true)
      (large : ¬ IsWord (integerValue numerator) ∨ ¬ IsWord (integerValue denominator)) :
      OutOfRange (numerator ++ '/' :: denominator)
  | float {text : List Char} {parts : Parts} (shape : floatParts? text = some parts)
      (large : parts.value.isFinite = false) : OutOfRange text

theorem length_takeSign_le (text : List Char) : (takeSign text).2.length ≤ text.length := by
  obtain ⟨sign, -, hText⟩ := exists_isSign_append text
  have hLength := congrArg List.length hText
  rw [List.length_append] at hLength
  omega

/-- An oversize numeral has more characters than digits are converted. -/
theorem Oversize.digitLimit_lt_length {text : List Char} (h : Oversize text) :
    digitLimit < text.length := by
  cases h with
  | integer _ long => exact Nat.lt_of_lt_of_le long (length_takeSign_le text)
  | @ratio numerator denominator _ _ long =>
      have hNumerator := length_takeSign_le numerator
      have hDenominator := length_takeSign_le denominator
      simp only [TooLong] at long
      simp only [List.length_append, List.length_cons]
      omega

section ReadWord

variable {digits lexeme : List Char}

theorem readWord_eq_tooManyDigits_iff {count : Nat} :
    readWord digits lexeme = .error (.tooManyDigits count) ↔
      TooLong digits ∧ count = (takeSign digits).2.length := by
  unfold readWord readInteger TooLong
  grind

/-- A number that is not read has too many digits, or is out of range. -/
theorem readWord_eq_error_cases {fault : LexemeFault} (h : readWord digits lexeme = .error fault) :
    (TooLong digits ∧ ∃ count, fault = .tooManyDigits count) ∨
      fault = .integerRange (String.ofList lexeme) := by
  unfold readWord readInteger at h
  unfold TooLong
  grind

theorem readWord_of_not_isWord (hShort : ¬ TooLong digits) (h : ¬ IsWord (integerValue digits)) :
    readWord digits lexeme = .error (.integerRange (String.ofList lexeme)) := by
  unfold TooLong at hShort
  unfold IsWord at h
  unfold readWord readInteger
  grind

end ReadWord

/-- A fault is reported with the lexeme as it stands, unless the lexeme is oversize. -/
theorem report?_of_classify {text : List Char} {fault : LexemeFault} (hLone : LoneMark text)
    (h : classify text = .error fault) :
    (Oversize text ∧ ∃ count, fault = .tooManyDigits count) ∨
      ∃ report, fault.report? = some report ∧ report.lexeme = String.ofList text := by
  rcases exists_of_classify_eq_error h with ⟨rule, quoted, -, hAttempt⟩ | rfl | ⟨rfl, rfl⟩
  · cases Rule.blames_of_attempt hAttempt with
    | @rational numerator denominator part _ parts isPart read =>
        obtain ⟨hNumerator, hDenominator, rfl⟩ := ratioParts?_eq_some_iff.mp parts
        rcases readWord_eq_error_cases read with ⟨hLong, hCount⟩ | rfl
        · refine .inl ⟨.ratio hNumerator hDenominator ?_, hCount⟩
          rcases isPart with rfl | rfl
          · exact .inl hLong
          · exact .inr hLong
        · exact .inr ⟨_, rfl, rfl⟩
    | float => exact .inr ⟨_, rfl, rfl⟩
    | integer shape read =>
        rcases readWord_eq_error_cases read with ⟨hLong, hCount⟩ | rfl
        · exact .inl ⟨.integer (isInteger_iff.mp shape) hLong, hCount⟩
        · exact .inr ⟨_, rfl, rfl⟩
    | @string _ flaw => cases flaw <;> exact .inr ⟨_, rfl, rfl⟩
    | @functionQuote behind _ starts applied =>
        obtain rfl : behind = [] := hLone behind (.inr starts)
        cases applied
    | @quote behind _ starts applied =>
        obtain rfl : behind = [] := hLone behind (.inl starts)
        cases applied
  · exact .inr ⟨_, rfl, rfl⟩
  · exact .inr ⟨_, rfl, rfl⟩

/-- Only a numeral that is oversize is at fault without a report. -/
theorem oversize_of_classify {text : List Char} {count : Nat} (hLone : LoneMark text)
    (h : classify text = .error (.tooManyDigits count)) : Oversize text := by
  rcases report?_of_classify hLone h with ⟨hOversize, -⟩ | ⟨report, hReport, -⟩
  · exact hOversize
  · cases hReport

/-- A numeral outside of 64 bits is refused, unless it is oversize. -/
theorem refused_of_outOfRange {text : List Char} (h : OutOfRange text) (hShort : ¬ Oversize text) :
    Refused text := by
  cases h with
  | integer shape large =>
      have hDigits : ¬ TooLong text := fun hLong => hShort (.integer shape hLong)
      have hFault : classify text = .error (.integerRange (String.ofList text)) := by
        rw [classify_of_integerShape shape, readWord_of_not_isWord hDigits large]
        rfl
      exact ⟨_, _, hFault, rfl, rfl, rfl⟩
  | @ratio numerator denominator shape digits large =>
      have hNumerator : ¬ TooLong numerator := fun hLong =>
        hShort (.ratio shape digits (.inl hLong))
      have hDenominator : ¬ TooLong denominator := fun hLong =>
        hShort (.ratio shape digits (.inr hLong))
      have hFault : classify (numerator ++ '/' :: denominator) =
          .error (.integerRange (String.ofList (numerator ++ '/' :: denominator))) := by
        rw [classify_of_ratio shape digits]
        cases hn : readWord numerator (numerator ++ '/' :: denominator) with
        | error fault =>
            rcases readWord_eq_error_cases hn with ⟨hLong, -⟩ | rfl
            · exact absurd hLong hNumerator
            · rfl
        | ok n =>
            obtain ⟨-, hValue, hRange⟩ := readWord_eq_ok_iff.mp hn
            have hLarge : ¬ IsWord (integerValue denominator) := by
              rcases large with hOut | hOut
              · exact absurd (hValue ▸ hRange) hOut
              · exact hOut
            rw [readWord_of_not_isWord hDenominator hLarge]
            rfl
      exact ⟨_, _, hFault, rfl, rfl, rfl⟩
  | @float _ parts shape large =>
      have hFault : classify text = .error (.floatRange (String.ofList text)) := by
        rw [classify_of_float shape, large]
        rfl
      exact ⟨_, _, hFault, rfl, rfl, rfl⟩

/-- A numeral outside of 64 bits is at fault, and the fault is reported unless the numeral is
oversize. -/
theorem classify_of_outOfRange {text : List Char} (h : OutOfRange text)
    (hShort : ¬ Oversize text) :
    ∃ fault report, classify text = .error fault ∧ fault.report? = some report ∧
      report.kind = .lexeme := by
  obtain ⟨fault, report, hFault, hReport, hKind, -⟩ := refused_of_outOfRange h hShort
  exact ⟨fault, report, hFault, hReport, hKind⟩

end Lexeme

end LispReader
