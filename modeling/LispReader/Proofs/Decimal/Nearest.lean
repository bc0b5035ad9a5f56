import Mathlib.Algebra.Order.Field.Power
import Mathlib.Data.Rat.Cast.Order
import Mathlib.Tactic.FieldSimp
import Mathlib.Tactic.Linarith
import Mathlib.Tactic.Ring
import LispReader.Decimal.Shortest
import LispReader.Proofs.Decimal.Binary64

/-!
The double nearest to a number. Numbers are fractions here: what the functions of the library count
with whole numbers and powers that are multiplied out is said of the fractions that they stand for.
All numbers of the interval around a double are read as the double.
-/

namespace LispReader.Decimal

/-- A power is a quotient of two powers with exponents that are multiplied out. -/
theorem zpow_eq_div (base : ℚ) (exponent : ℤ) :
    base ^ exponent = base ^ exponent.toNat / base ^ (-exponent).toNat := by
  obtain ⟨count, rfl | rfl⟩ := exponent.eq_nat_or_neg <;> simp

theorem atLeastTwoPow_iff {numerator denominator : Nat} (hPos : 0 < denominator) (exponent : ℤ) :
    atLeastTwoPow numerator denominator exponent = true ↔
      (2 : ℚ) ^ exponent ≤ numerator / denominator := by
  have hDenominator : (0 : ℚ) < denominator := by exact_mod_cast hPos
  rw [zpow_eq_div, div_le_div_iff₀ (by positivity) hDenominator, mul_comm]
  simp only [atLeastTwoPow, Nat.pow_eq, decide_eq_true_eq]
  exact_mod_cast Iff.rfl

theorem roundDiv_eq_of_le {numerator denominator units : Nat} (hPos : 0 < denominator)
    (hLow : 2 * (units * denominator) ≤ 2 * numerator + denominator)
    (hHigh : 2 * numerator ≤ 2 * (units * denominator) + denominator)
    (hTie : units % 2 = 0 ∨ 2 * (units * denominator) < 2 * numerator + denominator ∧
      2 * numerator < 2 * (units * denominator) + denominator) :
    roundDiv numerator denominator = units := by
  have hParts : numerator / denominator * denominator + numerator % denominator = numerator :=
    Nat.div_add_mod' ..
  have hRest : numerator % denominator < denominator := Nat.mod_lt _ hPos
  unfold roundDiv
  generalize numerator % denominator = rest at *
  generalize numerator / denominator = quotient at *
  obtain hLess | rfl | rfl | hMore : units + 1 ≤ quotient ∨ units = quotient ∨
      units = quotient + 1 ∨ quotient + 2 ≤ units := by omega
  · have hProduct := Nat.mul_le_mul_right denominator hLess
    rw [Nat.add_mul] at hProduct
    omega
  · dsimp only
    split
    · omega
    · split <;> omega
  · rw [Nat.add_mul] at hLow hHigh hTie
    dsimp only
    split
    · omega
    · split <;> omega
  · have hProduct := Nat.mul_le_mul_right denominator hMore
    rw [Nat.add_mul] at hProduct
    omega

/-- A quotient is rounded to a whole number that is at most one half away from it, and to the even
one of two such numbers. -/
theorem roundDiv_eq {numerator denominator units : Nat} (hPos : 0 < denominator)
    (hLow : (units : ℚ) - 1 / 2 ≤ numerator / denominator)
    (hHigh : (numerator : ℚ) / denominator ≤ units + 1 / 2)
    (hTie : units % 2 = 0 ∨ ((units : ℚ) - 1 / 2 < numerator / denominator ∧
      (numerator : ℚ) / denominator < units + 1 / 2)) :
    roundDiv numerator denominator = units := by
  have hDenominator : (0 : ℚ) < denominator := by exact_mod_cast hPos
  rw [le_div_iff₀ hDenominator] at hLow
  rw [div_le_iff₀ hDenominator] at hHigh
  rw [lt_div_iff₀ hDenominator, div_lt_iff₀ hDenominator] at hTie
  refine roundDiv_eq_of_le hPos ?_ ?_ (hTie.imp_right fun ⟨hAbove, hBelow⟩ => ⟨?_, ?_⟩)
  · have : (2 * (units * denominator) : ℚ) ≤ 2 * numerator + denominator := by linarith
    exact_mod_cast this
  · have : (2 * numerator : ℚ) ≤ 2 * (units * denominator) + denominator := by linarith
    exact_mod_cast this
  · have : (2 * (units * denominator) : ℚ) < 2 * numerator + denominator := by linarith
    exact_mod_cast this
  · have : (2 * numerator : ℚ) < 2 * (units * denominator) + denominator := by linarith
    exact_mod_cast this

/-- The exponent of the leading power of two of a fraction. -/
def leadingPower (numerator denominator : Nat) : Int :=
  let guess : Int := (Nat.log2 numerator : Int) - Nat.log2 denominator
  if atLeastTwoPow numerator denominator guess then guess else guess - 1

theorem two_zpow_log2 {count : Nat} (hPos : 0 < count) :
    (2 : ℚ) ^ (Nat.log2 count : ℤ) ≤ count ∧ (count : ℚ) < 2 ^ ((Nat.log2 count : ℤ) + 1) := by
  have hLow := Nat.log2_self_le (Nat.ne_of_gt hPos)
  have hHigh : count < 2 ^ (Nat.log2 count + 1) := Nat.lt_log2_self
  constructor
  · exact_mod_cast hLow
  · exact_mod_cast hHigh

/-- A fraction lies between its leading power of two and the next one. -/
theorem two_zpow_leadingPower {numerator denominator : Nat} (hNumerator : 0 < numerator)
    (hDenominator : 0 < denominator) :
    (2 : ℚ) ^ leadingPower numerator denominator ≤ numerator / denominator ∧
      (numerator : ℚ) / denominator < 2 ^ (leadingPower numerator denominator + 1) := by
  obtain ⟨hLow, hHigh⟩ := two_zpow_log2 hNumerator
  obtain ⟨hLow', hHigh'⟩ := two_zpow_log2 hDenominator
  have hPositive : (0 : ℚ) < denominator := by exact_mod_cast hDenominator
  have hTwo : (0 : ℚ) < 2 := two_pos
  unfold leadingPower
  dsimp only
  generalize hGuess : (Nat.log2 numerator : ℤ) - Nat.log2 denominator = guess
  by_cases hAtLeast : atLeastTwoPow numerator denominator guess = true
  · rw [if_pos hAtLeast]
    refine ⟨(atLeastTwoPow_iff hDenominator guess).1 hAtLeast, ?_⟩
    rw [div_lt_iff₀ hPositive]
    calc (numerator : ℚ) < 2 ^ ((Nat.log2 numerator : ℤ) + 1) := hHigh
      _ = 2 ^ (guess + 1) * 2 ^ (Nat.log2 denominator : ℤ) := by
          rw [← zpow_add₀ (ne_of_gt hTwo)]
          congr 1
          omega
      _ ≤ 2 ^ (guess + 1) * denominator := by gcongr
  · rw [if_neg hAtLeast]
    have hLess := mt (atLeastTwoPow_iff hDenominator guess).2 hAtLeast
    rw [not_le] at hLess
    refine ⟨?_, by rwa [sub_add_cancel]⟩
    rw [le_div_iff₀ hPositive]
    calc (2 : ℚ) ^ (guess - 1) * denominator
        ≤ 2 ^ (guess - 1) * 2 ^ ((Nat.log2 denominator : ℤ) + 1) := by gcongr
      _ = 2 ^ (Nat.log2 numerator : ℤ) := by
          rw [← zpow_add₀ (ne_of_gt hTwo)]
          congr 1
          omega
      _ ≤ numerator := hLow

theorem leadingPower_eq {numerator denominator : Nat} (hNumerator : 0 < numerator)
    (hDenominator : 0 < denominator) {power : ℤ}
    (hLow : (2 : ℚ) ^ power ≤ numerator / denominator)
    (hHigh : (numerator : ℚ) / denominator < 2 ^ (power + 1)) :
    leadingPower numerator denominator = power := by
  obtain ⟨hLow', hHigh'⟩ := two_zpow_leadingPower hNumerator hDenominator
  have hLess := (zpow_lt_zpow_iff_right₀ one_lt_two).1 (hLow.trans_lt hHigh')
  have hMore := (zpow_lt_zpow_iff_right₀ one_lt_two).1 (hLow'.trans_lt hHigh)
  omega

/-- The bits of a number that is counted in units of its last place. -/
theorem nearestBits_eq_of_units {numerator denominator units : Nat} {exponent : ℤ}
    (hNumerator : 0 < numerator) (hDenominator : 0 < denominator)
    (hExponent : max (leadingPower numerator denominator - 52) (-1074) = exponent)
    (hLow : (units : ℚ) - 1 / 2 ≤ numerator / denominator / 2 ^ exponent)
    (hHigh : (numerator : ℚ) / denominator / 2 ^ exponent ≤ units + 1 / 2)
    (hTie : units % 2 = 0 ∨ ((units : ℚ) - 1 / 2 < numerator / denominator / 2 ^ exponent ∧
      (numerator : ℚ) / denominator / 2 ^ exponent < units + 1 / 2)) :
    nearestBits numerator denominator =
      min (((exponent + 1074).toNat <<< 52) + units) infinityBits := by
  have hQuotient : (numerator : ℚ) / denominator / 2 ^ exponent =
      ((numerator * 2 ^ (-exponent).toNat : Nat) : ℚ) /
        ((denominator * 2 ^ exponent.toNat : Nat) : ℚ) := by
    rw [zpow_eq_div]
    push_cast
    field_simp
  rw [hQuotient] at hLow hHigh hTie
  have hUnits := roundDiv_eq (by positivity) hLow hHigh hTie
  subst hExponent
  simp only [nearestBits, if_neg (Nat.ne_of_gt hNumerator)]
  exact congrArg (fun count => min (_ + count) infinityBits) hUnits

/-- The numbers of an interval, in the unit in which its ends are counted. -/
structure Interval.Contains (interval : Interval) (x : ℚ) : Prop where
  low : interval.low ≤ x
  high : x ≤ interval.high
  inside : interval.closed = true ∨ (interval.low < x ∧ x < interval.high)

/-- The significand and the exponent of a positive double that is not infinite. -/
structure Canonical (significand : Nat) (exponent : Int) : Prop where
  pos : 0 < significand
  lt : significand < 2 ^ 53
  least : -1074 ≤ exponent
  greatest : exponent ≤ 971
  leading : exponent = -1074 ∨ 2 ^ 52 ≤ significand

/-- The number is one of those around a double that are nearer to it than to any other double, or as
near where the double is to be preferred. -/
def RoundsTo (number : ℚ) (significand : Nat) (exponent : Int) : Prop :=
  (Interval.ofFinite significand exponent).Contains (number / 2 ^ (exponent - 2))

theorem div_two_zpow_sub_two (number : ℚ) (exponent : ℤ) :
    number / 2 ^ (exponent - 2) = 4 * (number / 2 ^ exponent) := by
  rw [zpow_sub₀ two_ne_zero]
  norm_num
  field_simp

/-- A number that is nearest to a double lies within half a unit of its last place. -/
theorem RoundsTo.bounds {number : ℚ} {significand : Nat} {exponent : Int}
    (h : RoundsTo number significand exponent) (hPos : 0 < significand) :
    (significand : ℚ) - 1 / 2 ≤ number / 2 ^ exponent ∧
      number / 2 ^ exponent ≤ significand + 1 / 2 ∧
      (significand % 2 = 0 ∨ ((significand : ℚ) - 1 / 2 < number / 2 ^ exponent ∧
        number / 2 ^ exponent < significand + 1 / 2)) := by
  obtain ⟨hLow, hHigh, hInside⟩ := h
  rw [div_two_zpow_sub_two] at hLow hHigh hInside
  have hLeast : (4 * significand : ℚ) - 2 ≤ (Interval.ofFinite significand exponent).low := by
    have hNat : 4 * significand ≤ (Interval.ofFinite significand exponent).low + 2 := by
      simp only [Interval.ofFinite]
      split <;> omega
    have hCast : (4 * significand : ℚ) ≤ (Interval.ofFinite significand exponent).low + 2 := by
      exact_mod_cast hNat
    linarith
  have hGreatest : ((Interval.ofFinite significand exponent).high : ℚ) = 4 * significand + 2 := by
    simp [Interval.ofFinite]
  rw [hGreatest] at hHigh hInside
  refine ⟨by linarith, by linarith, ?_⟩
  obtain hEven | ⟨hAbove, hBelow⟩ := hInside
  · exact .inl (by simpa [Interval.ofFinite] using hEven)
  · exact .inr ⟨by linarith, by linarith⟩

/-- Below a power of two the doubles lie twice as close. -/
theorem RoundsTo.low_of_narrow {number : ℚ} {exponent : Int}
    (h : RoundsTo number (2 ^ 52) exponent) (hLeast : -1074 < exponent) :
    (2 : ℚ) ^ 53 - 1 / 2 ≤ number / 2 ^ (exponent - 1) := by
  have hLow := h.low
  rw [div_two_zpow_sub_two] at hLow
  have hNarrow : (Interval.ofFinite (2 ^ 52) exponent).low = 4 * 2 ^ 52 - 1 := by
    simp [Interval.ofFinite, hLeast]
  rw [hNarrow] at hLow
  have hScale : number / 2 ^ (exponent - 1) = 2 * (number / 2 ^ exponent) := by
    rw [zpow_sub₀ two_ne_zero]
    norm_num
    field_simp
  rw [hScale]
  norm_num at hLow ⊢
  linarith

/-- The bits of a positive double. A leading one adds to the exponent field. -/
def positiveBits (significand : Nat) (exponent : Int) : Nat :=
  ((exponent + 1074).toNat <<< 52) + significand

theorem Canonical.positiveBits_lt {significand : Nat} {exponent : Int}
    (h : Canonical significand exponent) : positiveBits significand exponent < infinityBits := by
  obtain ⟨-, hLt, -, hGreatest, -⟩ := h
  simp only [positiveBits, infinityBits, Nat.shiftLeft_eq]
  omega

/-- A number in the interval of a double is read as the double. -/
theorem nearestBits_eq {numerator denominator significand : Nat} {exponent : Int}
    (hNumerator : 0 < numerator) (hDenominator : 0 < denominator)
    (hCanonical : Canonical significand exponent)
    (hRounds : RoundsTo (numerator / denominator) significand exponent) :
    nearestBits numerator denominator = positiveBits significand exponent := by
  have hFits := hCanonical.positiveBits_lt
  obtain ⟨hPos, hLt, hLeast, hGreatest, hLeading⟩ := hCanonical
  obtain ⟨hLow, hHigh, hTie⟩ := hRounds.bounds hPos
  have hPower : (0 : ℚ) < 2 ^ exponent := by positivity
  have hBelow : (numerator : ℚ) / denominator < 2 ^ (exponent + 52 + 1) := by
    have hLess : (significand : ℚ) + 1 / 2 < 2 ^ 53 := by
      have hCast : (significand : ℚ) + 1 ≤ 2 ^ 53 := by exact_mod_cast hLt
      linarith
    have hQuotient := hHigh.trans_lt hLess
    rw [div_lt_iff₀ hPower] at hQuotient
    rwa [add_assoc, add_comm, zpow_add₀ two_ne_zero]
  by_cases hAbove : (2 : ℚ) ^ (exponent + 52) ≤ numerator / denominator
  · have hPlace : max (leadingPower numerator denominator - 52) (-1074) = exponent := by
      rw [leadingPower_eq hNumerator hDenominator hAbove hBelow]
      omega
    rw [nearestBits_eq_of_units hNumerator hDenominator hPlace hLow hHigh hTie]
    exact min_eq_left_of_lt hFits
  · rw [not_le] at hAbove
    obtain rfl | hNormal := hLeast.eq_or_lt
    · have hPlace : max (leadingPower numerator denominator - 52) (-1074) = -1074 := by
        have hLead := (two_zpow_leadingPower hNumerator hDenominator).1.trans_lt hAbove
        have hPowers := (zpow_lt_zpow_iff_right₀ one_lt_two).1 hLead
        omega
      rw [nearestBits_eq_of_units hNumerator hDenominator hPlace hLow hHigh hTie]
      exact min_eq_left_of_lt hFits
    · -- The double is a power of two, and the number lies below it, where places are finer.
      obtain rfl : significand = 2 ^ 52 := by
        rw [add_comm, zpow_add₀ two_ne_zero, ← div_lt_iff₀ hPower] at hAbove
        have hLess := hLow.trans_lt hAbove
        have hCast : (significand : ℚ) < 4503599627370497 := by
          norm_num at hLess
          linarith
        have hNat : significand < 4503599627370497 := by exact_mod_cast hCast
        omega
      have hPower' : (0 : ℚ) < 2 ^ (exponent - 1) := by positivity
      have hNarrow := hRounds.low_of_narrow hNormal
      have hWide : (numerator : ℚ) / denominator / 2 ^ (exponent - 1) < 2 ^ 53 := by
        rw [div_lt_iff₀ hPower', ← zpow_natCast, ← zpow_add₀ two_ne_zero]
        convert hAbove using 2
        push_cast
        ring
      have hPlace : max (leadingPower numerator denominator - 52) (-1074) = exponent - 1 := by
        have hLeading : leadingPower numerator denominator = exponent + 51 := by
          refine leadingPower_eq hNumerator hDenominator ?_ ?_
          · rw [le_div_iff₀ hPower'] at hNarrow
            refine le_trans ?_ hNarrow
            rw [show exponent + 51 = 52 + (exponent - 1) by ring, zpow_add₀ two_ne_zero]
            gcongr
            norm_num
          · rwa [show exponent + 51 + 1 = exponent + 52 by ring]
        omega
      have hUnits : nearestBits numerator denominator =
          min (((exponent - 1 + 1074).toNat <<< 52) + 2 ^ 53) infinityBits :=
        nearestBits_eq_of_units hNumerator hDenominator hPlace (by exact_mod_cast hNarrow)
          (by push_cast; linarith) (.inl (by norm_num))
      rw [hUnits]
      simp only [positiveBits, Nat.shiftLeft_eq] at hFits ⊢
      omega

/-- Numbers that are nearest to a double are neither huge nor tiny. -/
theorem RoundsTo.range {number : ℚ} {significand : Nat} {exponent : Int}
    (h : RoundsTo number significand exponent) (hCanonical : Canonical significand exponent) :
    (2 : ℚ) ^ (-1075 : ℤ) ≤ number ∧ number < 2 ^ (1024 : ℤ) := by
  obtain ⟨hPos, hLt, hLeast, hGreatest, -⟩ := hCanonical
  obtain ⟨hLow, hHigh, -⟩ := h.bounds hPos
  have hPower : (0 : ℚ) < 2 ^ exponent := by positivity
  constructor
  · have hOne : (1 : ℚ) ≤ significand := by exact_mod_cast hPos
    rw [le_div_iff₀ hPower] at hLow
    calc (2 : ℚ) ^ (-1075 : ℤ) ≤ 2 ^ (exponent - 1) :=
          zpow_le_zpow_right₀ one_le_two (by omega)
      _ = (1 - 1 / 2) * 2 ^ exponent := by
          rw [zpow_sub₀ two_ne_zero]
          ring
      _ ≤ (significand - 1 / 2) * 2 ^ exponent := by gcongr
      _ ≤ number := hLow
  · have hLess : (significand : ℚ) + 1 / 2 < 2 ^ (53 : ℤ) := by
      have hCast : (significand : ℚ) + 1 ≤ 2 ^ 53 := by exact_mod_cast hLt
      norm_num at hCast ⊢
      linarith
    rw [div_le_iff₀ hPower] at hHigh
    calc number ≤ (significand + 1 / 2) * 2 ^ exponent := hHigh
      _ < 2 ^ (53 : ℤ) * 2 ^ exponent := by gcongr
      _ = 2 ^ (53 + exponent) := (zpow_add₀ two_ne_zero _ _).symm
      _ ≤ 2 ^ (1024 : ℤ) := zpow_le_zpow_right₀ one_le_two (by omega)

/-- Numbers in the range of doubles are settled by their digits, whatever their power of ten. -/
theorem power_of_range {digits : Nat} {power : Int} (hDigits : 0 < digits)
    (hLeast : (2 : ℚ) ^ (-1075 : ℤ) ≤ digits * 10 ^ power)
    (hGreatest : (digits : ℚ) * 10 ^ power < 2 ^ (1024 : ℤ)) :
    power ≤ 400 ∧ -401 - (Nat.log2 digits : Int) ≤ power := by
  have hTen : (1 : ℚ) ≤ 10 := by norm_num
  constructor
  · by_contra hHuge
    have hOne : (1 : ℚ) ≤ digits := by exact_mod_cast hDigits
    have hApart : (2 : ℚ) ^ (1024 : ℤ) < 10 ^ (401 : ℤ) := by
      have hNat : 2 ^ 1024 < 10 ^ 401 := by decide +kernel
      exact_mod_cast hNat
    have hMore : (10 : ℚ) ^ (401 : ℤ) ≤ digits * 10 ^ power := by
      calc (10 : ℚ) ^ (401 : ℤ) ≤ 10 ^ power := zpow_le_zpow_right₀ hTen (by omega)
        _ ≤ digits * 10 ^ power := le_mul_of_one_le_left (by positivity) hOne
    exact lt_irrefl _ (hMore.trans_lt (hGreatest.trans hApart))
  · by_contra hTiny
    have hApart : (10 : ℚ) ^ (-401 : ℤ) < 2 ^ (-1075 : ℤ) := by
      have hNat : 2 ^ 1075 < 10 ^ 401 := by decide +kernel
      rw [zpow_neg, zpow_neg]
      exact inv_strictAnti₀ (by positivity) (by exact_mod_cast hNat)
    have hLess : (digits : ℚ) * 10 ^ power < 10 ^ (-401 : ℤ) := by
      calc (digits : ℚ) * 10 ^ power
          < 2 ^ ((Nat.log2 digits : ℤ) + 1) * 10 ^ power := by
            gcongr
            exact (two_zpow_log2 hDigits).2
        _ ≤ 10 ^ ((Nat.log2 digits : ℤ) + 1) * 10 ^ power := by
            gcongr
            exact_mod_cast Nat.pow_le_pow_left (by decide : 2 ≤ 10) (Nat.log2 digits + 1)
        _ = 10 ^ ((Nat.log2 digits : ℤ) + 1 + power) := (zpow_add₀ (by norm_num) _ _).symm
        _ ≤ 10 ^ (-401 : ℤ) := zpow_le_zpow_right₀ hTen (by omega)
    exact lt_irrefl _ (hLess.trans (hApart.trans_le hLeast))

/-- The double of a sign, a significand and an exponent. -/
def ofParts (negative : Bool) (significand : Nat) (exponent : Int) : Float :=
  Float.ofBits (UInt64.ofNat
    ((if negative then 1 <<< 63 else 0) + positiveBits significand exponent))

/-- The bits of a double, field by field. -/
theorem toBits_eq (x : Float) :
    x.toBits.toNat = (if x.toBits.toNat >>> 63 % 2 == 1 then 1 <<< 63 else 0) +
      (exponentField x * 2 ^ 52 + fractionField x) := by
  have hLast : x.toBits.toNat < 2 ^ 64 := x.toBits.toNat_lt
  unfold exponentField fractionField
  simp only [Nat.shiftRight_eq_div_pow, Nat.shiftLeft_eq, beq_iff_eq]
  generalize x.toBits.toNat = bits at *
  split <;> omega

section Parts

variable {x : Float} {negative : Bool} {significand : Nat} {exponent : Int}
  (hFinite : Binary64.ofFloat x = .finite negative significand exponent)
include hFinite

theorem canonical_of_ofFloat (hPos : 0 < significand) : Canonical significand exponent := by
  have hField : exponentField x < 2048 := Nat.mod_lt _ (by decide)
  have hFraction : fractionField x < 2 ^ 52 := Nat.mod_lt _ (by decide)
  rw [ofFloat_eq] at hFinite
  split at hFinite
  · split at hFinite <;> cases hFinite
  · split at hFinite <;> cases hFinite
    · exact ⟨hPos, by omega, by omega, by omega, .inl rfl⟩
    · exact ⟨hPos, by omega, by omega, by omega, .inr (by omega)⟩

theorem exponent_of_zero (hZero : significand = 0) : exponent = -1074 := by
  rw [ofFloat_eq] at hFinite
  split at hFinite
  · split at hFinite <;> cases hFinite
  · split at hFinite <;> cases hFinite
    · rfl
    · omega

/-- A double is put together from what it stands for. -/
theorem ofParts_of_ofFloat : ofParts negative significand exponent = x := by
  have hField : exponentField x ≠ 0x7ff := by
    intro hField
    rw [ofFloat_eq, if_pos hField] at hFinite
    split at hFinite <;> cases hFinite
  have hBits : (if negative then 1 <<< 63 else 0) + positiveBits significand exponent =
      x.toBits.toNat := by
    rw [toBits_eq, positiveBits, Nat.shiftLeft_eq]
    rw [ofFloat_eq, if_neg hField] at hFinite
    split at hFinite <;> cases hFinite
    · omega
    · omega
  calc ofParts negative significand exponent
      = Float.ofBits (UInt64.ofNat x.toBits.toNat) :=
        congrArg (fun bits => Float.ofBits (UInt64.ofNat bits)) hBits
    _ = Float.ofBits x.toBits := congrArg Float.ofBits UInt64.ofNat_toNat
    _ = x := ofBits_toBits hField

end Parts

/-- A decimal number in the interval of a double is read as the double. -/
theorem nearestFloat_eq {digits significand : Nat} {power exponent : Int} (hDigits : 0 < digits)
    (hCanonical : Canonical significand exponent)
    (hRounds : RoundsTo (digits * 10 ^ power) significand exponent) (negative : Bool) :
    nearestFloat negative digits power = ofParts negative significand exponent := by
  obtain ⟨hLeast, hGreatest⟩ := hRounds.range hCanonical
  obtain ⟨hNotHuge, hNotTiny⟩ := power_of_range hDigits hLeast hGreatest
  have hQuotient : (digits : ℚ) * 10 ^ power =
      ((digits * 10 ^ power.toNat : Nat) : ℚ) / ((10 ^ (-power).toNat : Nat) : ℚ) := by
    rw [zpow_eq_div]
    push_cast
    ring
  rw [hQuotient] at hRounds
  have hBits := nearestBits_eq (by positivity) (by positivity) hCanonical hRounds
  unfold nearestFloat ofParts
  simp only [if_neg (Nat.ne_of_gt hDigits), if_neg (Int.not_lt.2 hNotHuge),
    if_neg (Int.not_lt.2 hNotTiny), Nat.pow_eq, hBits]

end LispReader.Decimal
