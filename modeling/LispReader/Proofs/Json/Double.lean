import LispReader.Json.Layout
import LispReader.Proofs.Decimal.Shortest
import LispReader.Proofs.Json.Number

/-!
The texts of doubles. No needless zero stands in front of the shortest digits of a double, since
they are those of a positive number. So in places or with an exponent, what is written for a finite
double is a number of JSON with a fraction or an exponent. The other doubles have words of their
own.
-/

namespace LispReader

namespace Json

open Decimal

theorem LeadingDigits.isWhole_take {digits : List Char} (hDigits : LeadingDigits digits)
    (count zeros : Nat) : IsWhole (digits.take (count + 1) ++ List.replicate zeros '0') := by
  obtain ⟨hAll, hZero⟩ := hDigits
  obtain ⟨c, others, rfl⟩ := List.exists_cons_of_ne_nil (isDigits_iff.mp hAll).1
  refine .inr ⟨isDigits_append (isDigits_iff.mpr ⟨by simp, fun d hd => ?_⟩)
    (isDigits_replicate zeros), by simpa using hZero⟩
  exact (isDigits_iff.mp hAll).2 d (List.mem_of_mem_take hd)

/-- What is left of digits is empty or digits. -/
theorem isDigits_drop {digits : List Char} (hDigits : isDigits digits = true) (count : Nat)
    (hSome : ¬(digits.drop count).isEmpty = true) : isDigits (digits.drop count) = true :=
  isDigits_iff.mpr ⟨by simpa using hSome, fun c hc =>
    (isDigits_iff.mp hDigits).2 c (List.mem_of_mem_drop hc)⟩

theorem isReal_plain {digits : List Char} (hDigits : LeadingDigits digits) {minus : List Char}
    (hMinus : IsMinus minus) (exponent : Int) :
    IsReal (minus ++ FloatFormat.plain digits exponent) := by
  unfold FloatFormat.plain
  split
  · -- the point stands among the digits or behind them, where a zero follows it
    let whole := exponent.toNat
    let fraction := digits.drop (whole + 1)
    have hFraction : isDigits (if fraction.isEmpty then ['0'] else fraction) = true := by
      split
      · rfl
      · next hSome => exact isDigits_drop hDigits.1 _ hSome
    refine ⟨minus, _, _, [], hMinus, hDigits.isWhole_take whole (whole + 1 - digits.length),
      .inr ⟨_, hFraction, rfl⟩, .inl rfl, .inl (by simp), ?_⟩
    simp [FloatFormat.pointed, whole, fraction, List.append_assoc]
  · let zeros := List.replicate (-exponent - 1).toNat '0'
    have hFraction : isDigits (zeros ++ digits) = true := by
      refine isDigits_iff.mpr ⟨by simp [(isDigits_iff.mp hDigits.1).1], fun c hc => ?_⟩
      exact (List.mem_append.mp hc).elim (isDigits_replicate _ c) ((isDigits_iff.mp hDigits.1).2 c)
    exact ⟨minus, ['0'], '.' :: (zeros ++ digits), [], hMinus, .inl rfl, .inr ⟨_, hFraction, rfl⟩,
      .inl rfl, .inl (by simp), by simp [zeros]⟩

theorem isReal_scientific {digits : List Char} (hDigits : LeadingDigits digits)
    {minus : List Char} (hMinus : IsMinus minus) (format : FloatFormat)
    (exponent : Int) : IsReal (minus ++ format.scientific digits exponent) := by
  let fraction := digits.drop 1
  let sign : Char := if exponent < 0 then '-' else '+'
  let power := padZeros format.exponentWidth (Nat.toDigits 10 exponent.natAbs)
  have hWhole : IsWhole (digits.take 1) := by
    simpa using hDigits.isWhole_take 0 0
  have hFraction : IsFraction (if fraction.isEmpty then [] else '.' :: fraction) := by
    split
    · exact .inl rfl
    · next hSome => exact .inr ⟨_, isDigits_drop hDigits.1 _ hSome, rfl⟩
  have hSign : IsSign [sign] := by
    by_cases hNegative : exponent < 0
    · exact .inr (.inr (by simp [sign, hNegative]))
    · exact .inr (.inl (by simp [sign, hNegative]))
  have hPower : isDigits power = true := by
    have hExponent := isDigits_iff.mp (isDigits_toDigits exponent.natAbs)
    refine isDigits_iff.mpr ⟨by simp [power, padZeros, hExponent.1], fun c hc => ?_⟩
    exact (List.mem_append.mp hc).elim (isDigits_replicate _ c) (hExponent.2 c)
  refine ⟨minus, _, _, 'e' :: ([sign] ++ power), hMinus, hWhole, hFraction,
    .inr ⟨[sign], power, hSign, hPower, rfl⟩, .inr (by simp), ?_⟩
  simp [FloatFormat.scientific, fraction, sign, power]

theorem isReal_magnitude (format : FloatFormat) {number : Nat × Int} (hPos : 0 < number.1)
    {minus : List Char} (hMinus : IsMinus minus) :
    IsReal (minus ++ format.magnitude number) := by
  have hDigits : LeadingDigits (Nat.toDigits 10 number.1) :=
    ⟨isDigits_toDigits _, head?_toDigits hPos⟩
  simp only [FloatFormat.magnitude]
  split
  · exact isReal_plain hDigits hMinus _
  · exact isReal_scientific hDigits hMinus format _

/-- What is written for a finite double is a number with a fraction or an exponent. -/
theorem isReal_text (format : FloatFormat) {x : Float} {negative : Bool} {significand : Nat}
    {exponent : Int} (hFinite : Binary64.ofFloat x = .finite negative significand exponent) :
    IsReal (format.text x).toList := by
  have hMinus := isMinus_ite (negative = true)
  rw [format.toList_text hFinite]
  by_cases hZero : significand = 0
  · rw [if_pos hZero]
    exact ⟨_, ['0'], ['.', '0'], [], hMinus, .inl rfl, .inr ⟨['0'], rfl, rfl⟩, .inl rfl,
      .inl (by simp), by simp⟩
  · rw [if_neg hZero]
    exact isReal_magnitude format (shortest_pos (by omega) exponent) hMinus

/-- An infinite double is written as a fixed word, which stands for it. -/
theorem next?_infinity {x : Float} {negative : Bool}
    (hInfinite : Binary64.ofFloat x = .infinity negative) (rest : List Char) :
    Mark.next? ((floatFormat.text x).toList ++ rest) = some (.word (.float x), rest) := by
  have hText : (floatFormat.text x).toList =
      (if negative then ['-'] else []) ++ "Infinity".toList := by
    simp only [FloatFormat.text, hInfinite]
    cases negative <;> simp [floatFormat]
  rw [hText, eq_infinite_of_ofFloat hInfinite]
  cases negative <;> simp [Mark.next?, word?, words, infinite]

/-- The double that is no number is written as a fixed word, which stands for it. -/
theorem next?_nan {x : Float} (hNaN : Binary64.ofFloat x = .nan) (rest : List Char) :
    Mark.next? ((floatFormat.text x).toList ++ rest) = some (.word (.float x), rest) := by
  have hText : (floatFormat.text x).toList = "NaN".toList := by
    simp [FloatFormat.text, hNaN, floatFormat]
  have hOnly : x = 0.0 / 0.0 := eq_of_ofFloat_eq_nan hNaN (by decide +kernel)
  rw [hText, hOnly]
  simp [Mark.next?, word?, words]

end Json

end LispReader
