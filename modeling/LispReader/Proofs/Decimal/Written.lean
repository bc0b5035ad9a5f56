import Mathlib.Tactic.IntervalCases
import LispReader.Proofs.Decimal.Shape

/-!
Whole numbers in decimal. What is written for a number has the shape of one, and reading it gives
the number back, within 64 bits.
-/

namespace LispReader

namespace Decimal

/-- The decimal text of a whole number. -/
def written (value : Int) : List Char :=
  (toString value).toList

theorem written_natCast (value : Nat) : written value = Nat.toDigits 10 value :=
  Nat.toList_repr

theorem written_negSucc (value : Nat) :
    written (.negSucc value) = '-' :: Nat.toDigits 10 (value + 1) := by
  have hText : toString (Int.negSucc value) = "-" ++ (value + 1).repr := rfl
  rw [written, hText, String.toList_append, Nat.toList_repr]
  rfl

theorem isDigits_toDigits (value : Nat) : isDigits (Nat.toDigits 10 value) = true :=
  isDigits_iff.mpr ⟨Nat.toDigits_ne_nil, fun _ hc =>
    Nat.isDigit_of_mem_toDigits (by decide) (by decide) hc⟩

theorem isDigits_append {first second : List Char} (hFirst : isDigits first = true)
    (hSecond : ∀ c ∈ second, c.isDigit = true) : isDigits (first ++ second) = true := by
  rw [isDigits_iff] at hFirst ⊢
  refine ⟨by simp [hFirst.1], fun c hc => ?_⟩
  exact (List.mem_append.mp hc).elim (hFirst.2 c) (hSecond c)

theorem isDigits_replicate (count : Nat) :
    ∀ c ∈ List.replicate count '0', c.isDigit = true := by
  intro c hc
  rw [(List.mem_replicate.mp hc).2]
  rfl

theorem digitsValue_toDigits (value : Nat) : digitsValue (Nat.toDigits 10 value) = value :=
  Nat.ofDigitChars_ten_toDigits

/-- No zero stands in front of a positive number. -/
theorem head?_toDigits {value : Nat} (hPos : 0 < value) :
    (Nat.toDigits 10 value).head? ≠ some '0' := by
  induction value using Nat.strongRecOn with
  | ind value ih =>
      by_cases hOne : value < 10
      · rw [Nat.toDigits_of_lt_base hOne]
        have hDigit : Nat.digitChar value ≠ '0' := by
          interval_cases value <;> decide
        simpa using hDigit
      · have hRest := ih (value / 10) (by omega) (by omega)
        rw [Nat.toDigits_of_base_le (by decide) (by omega), List.head?_append]
        obtain ⟨c, others, hCons⟩ := List.exists_cons_of_ne_nil
          (Nat.toDigits_ne_nil (n := value / 10) (b := 10))
        rw [hCons] at hRest ⊢
        simpa using hRest

/-- A written number is its digits with a minus sign in front if it is negative. -/
theorem written_eq (value : Int) :
    written value = (if value < 0 then ['-'] else []) ++ Nat.toDigits 10 value.natAbs := by
  cases value with
  | ofNat count =>
      have hSign : ¬Int.ofNat count < 0 := by simp
      rw [if_neg hSign]
      exact written_natCast count
  | negSucc count =>
      rw [written_negSucc, if_pos (Int.negSucc_lt_zero count)]
      rfl

theorem isDigits_written {value : Int} (h : 0 ≤ value) : isDigits (written value) = true := by
  obtain ⟨count, rfl⟩ := Int.eq_ofNat_of_zero_le h
  rw [written_natCast]
  exact isDigits_toDigits count

theorem integerShape_written (value : Int) : IntegerShape (written value) := by
  cases value with
  | ofNat count =>
      exact ⟨[], _, .inl rfl, isDigits_toDigits count, written_natCast count⟩
  | negSucc count =>
      exact ⟨['-'], _, .inr (.inr rfl), isDigits_toDigits (count + 1), written_negSucc count⟩

theorem takeSign_written (value : Int) :
    takeSign (written value) = (decide (value < 0), Nat.toDigits 10 value.natAbs) := by
  cases value with
  | ofNat count =>
      exact (congrArg takeSign (written_natCast count)).trans
        (takeSign_of_isDigits (isDigits_toDigits count))
  | negSucc count =>
      rw [written_negSucc, takeSign, Int.natAbs_negSucc, decide_eq_true (Int.negSucc_lt_zero count)]

theorem integerValue_written (value : Int) : integerValue (written value) = value := by
  rw [integerValue, takeSign_written]
  simp only [digitsValue_toDigits, decide_eq_true_eq]
  split <;> omega

theorem isShort_iff {value : Int} : IsShort value ↔ value.natAbs < 10 ^ digitLimit :=
  Nat.length_toDigits_le_iff (by decide) (by decide)

/-- The least number that is too long. -/
theorem not_isShort_ten_pow : ¬IsShort (10 ^ digitLimit) := by
  rw [isShort_iff, Int.natAbs_pow]
  generalize digitLimit = limit
  exact Nat.lt_irrefl _

/-- Within the limit of digits a number is read back. -/
theorem readInteger_written {value : Int} (h : IsShort value) :
    readInteger (written value) = .ok value := by
  unfold IsShort at h
  rw [readInteger, takeSign_written]
  simp only [integerValue_written]
  rw [if_neg (by omega)]

end Decimal

namespace Lexeme

open Decimal

/-- A number that is read fits into 64 bits, and it is the one that is written. -/
theorem readWord_eq_ok_iff {digits lexeme : List Char} {value : Int} :
    readWord digits lexeme = .ok value ↔
      (takeSign digits).2.length ≤ digitLimit ∧ integerValue digits = value ∧
        leastWord ≤ value ∧ value ≤ greatestWord := by
  unfold readWord readInteger
  grind

/-- A number of 64 bits is not too long: nineteen digits hold it. -/
theorem isShort_of_word {value : Int} (hLeast : leastWord ≤ value)
    (hGreatest : value ≤ greatestWord) : IsShort value := by
  have hDigits : (10 : Nat) ^ 19 ≤ 10 ^ digitLimit := Nat.pow_le_pow_right (by decide) (by decide)
  refine isShort_iff.mpr (Nat.lt_of_lt_of_le ?_ hDigits)
  unfold leastWord at hLeast
  unfold greatestWord at hGreatest
  omega

/-- A number of 64 bits is read back. -/
theorem readWord_written {value : Int} (hLeast : leastWord ≤ value)
    (hGreatest : value ≤ greatestWord) (lexeme : List Char) :
    readWord (written value) lexeme = .ok value := by
  refine readWord_eq_ok_iff.mpr ⟨?_, integerValue_written value, hLeast, hGreatest⟩
  rw [takeSign_written]
  exact isShort_of_word hLeast hGreatest

end Lexeme

end LispReader
