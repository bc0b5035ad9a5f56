import LispReader.Proofs.Decimal.Nearest

/-!
Doubles that are equal. The comparison of two doubles says whether they stand for the same number,
an infinite one of either sign included. Only the two zeros are told apart by their bits and not by
their number, and what is no number equals nothing.
-/

namespace LispReader.Decimal

open Float.Model (UnpackedFloat)

/-- The number of a sign, a significand and an exponent. -/
def signedNumber (negative : Bool) (significand : Nat) (exponent : Int) : ℚ :=
  (if negative then -1 else 1) * (significand * 2 ^ exponent)

/-- Two doubles stand for the same number. -/
inductive Binary64.SameNumber : Binary64 → Binary64 → Prop
  | infinity (negative : Bool) : SameNumber (.infinity negative) (.infinity negative)
  | finite {negative negative' : Bool} {significand significand' : Nat} {exponent exponent' : Int}
      (hNumber : signedNumber negative significand exponent =
        signedNumber negative' significand' exponent') :
      SameNumber (.finite negative significand exponent) (.finite negative' significand' exponent')

namespace Binary64.SameNumber

variable {first second third : Binary64}

theorem refl (h : first ≠ .nan) : SameNumber first first := by
  cases first with
  | nan => exact absurd rfl h
  | infinity negative => exact .infinity negative
  | finite => exact .finite rfl

theorem symm (h : SameNumber first second) : SameNumber second first := by
  cases h with
  | infinity negative => exact .infinity negative
  | finite hNumber => exact .finite hNumber.symm

theorem trans (h : SameNumber first second) (hNext : SameNumber second third) :
    SameNumber first third := by
  cases h with
  | infinity negative => exact hNext
  | finite hNumber =>
      cases hNext with
      | finite hOther => exact .finite (hNumber.trans hOther)

end Binary64.SameNumber

/-- Of two canonical pairs with the same number, neither has the greater exponent: the significand
of the other one would have to make up for it, and has no bits left for that. -/
theorem Canonical.le_exponent {significand significand' : Nat} {exponent exponent' : Int}
    (h : Canonical significand exponent) (h' : Canonical significand' exponent')
    (hNumber : (significand : ℚ) * 2 ^ exponent = significand' * 2 ^ exponent') :
    exponent' ≤ exponent := by
  by_contra hLess
  have hLeading : 2 ^ 52 ≤ significand' := by
    have hLeast := h.least
    exact h'.leading.resolve_left (by omega)
  have hPower : (2 : ℚ) ^ exponent' = 2 ^ exponent * 2 ^ (exponent' - exponent) := by
    rw [← zpow_add₀ two_ne_zero, add_sub_cancel]
  have hTwice : (2 : ℚ) ≤ 2 ^ (exponent' - exponent) := by
    calc (2 : ℚ) = 2 ^ (1 : ℤ) := (zpow_one 2).symm
      _ ≤ 2 ^ (exponent' - exponent) := zpow_le_zpow_right₀ one_le_two (by omega)
  have hAmount : (significand : ℚ) = significand' * 2 ^ (exponent' - exponent) := by
    have hPos : (2 : ℚ) ^ exponent ≠ 0 := by positivity
    apply mul_right_cancel₀ hPos
    rw [hNumber, hPower]
    ring
  have hMore : (significand' : ℚ) * 2 ≤ significand := by
    rw [hAmount]
    gcongr
  have hNat : significand' * 2 ≤ significand := by exact_mod_cast hMore
  have hLt := h.lt
  omega

/-- A positive double is known by its number. -/
theorem Canonical.unique {significand significand' : Nat} {exponent exponent' : Int}
    (h : Canonical significand exponent) (h' : Canonical significand' exponent')
    (hNumber : (significand : ℚ) * 2 ^ exponent = significand' * 2 ^ exponent') :
    significand = significand' ∧ exponent = exponent' := by
  obtain rfl : exponent = exponent' :=
    le_antisymm (h'.le_exponent h hNumber.symm) (h.le_exponent h' hNumber)
  have hPos : (2 : ℚ) ^ exponent ≠ 0 := by positivity
  have hCast : (significand : ℚ) = significand' := mul_right_cancel₀ hPos hNumber
  exact ⟨by exact_mod_cast hCast, rfl⟩

theorem signedNumber_zero (negative : Bool) (exponent : Int) :
    signedNumber negative 0 exponent = 0 := by
  simp [signedNumber]

theorem signedNumber_eq_zero_iff {negative : Bool} {significand : Nat} {exponent : Int} :
    signedNumber negative significand exponent = 0 ↔ significand = 0 := by
  have hPower : (2 : ℚ) ^ exponent ≠ 0 := by positivity
  cases negative <;> simp [signedNumber, hPower]

/-- Numbers that are not zero and are the same have the same sign and the same amount. -/
theorem signedNumber_inj {negative negative' : Bool} {significand significand' : Nat}
    {exponent exponent' : Int} (hPos : 0 < significand) (hPos' : 0 < significand')
    (hNumber : signedNumber negative significand exponent =
      signedNumber negative' significand' exponent') :
    negative = negative' ∧ (significand : ℚ) * 2 ^ exponent = significand' * 2 ^ exponent' := by
  have hLeft : (0 : ℚ) < significand * 2 ^ exponent := by positivity
  have hRight : (0 : ℚ) < significand' * 2 ^ exponent' := by positivity
  unfold signedNumber at hNumber
  cases negative <;> cases negative' <;>
    simp only [Bool.false_eq_true, if_true, if_false, one_mul, neg_one_mul] at hNumber
  · exact ⟨rfl, hNumber⟩
  · linarith
  · linarith
  · exact ⟨rfl, neg_injective hNumber⟩

/-- The exact value of a double, from the parts that the comparison of two doubles looks at. -/
def ofUnpacked : UnpackedFloat → Binary64
  | .notANumber => .nan
  | .infinity sign => .infinity (sign matches .negative)
  | .zero sign => .finite (sign matches .negative) 0 (-1074)
  | .finite sign mantissa exponent _ => .finite (sign matches .negative) mantissa exponent

theorem sign_eq (x : Float) :
    (x.toBits.toNat >>> 63 % 2 == 1) = (UnpackedFloat.Sign.ofBitVec
      (@UnpackedFloat.unpackSign .binary64 x.toBits.toBitVec) matches .negative) := by
  have hBit : ∀ bit : BitVec 1,
      (bit.toNat == 1) = (UnpackedFloat.Sign.ofBitVec bit matches .negative) := by decide
  have hSign : (@UnpackedFloat.unpackSign .binary64 x.toBits.toBitVec).toNat =
      (x.toBits.toBitVec.extractLsb 63 63).toNat := rfl
  rw [← hBit, hSign]
  simp

theorem ofFloat_eq_ofUnpacked (x : Float) :
    Binary64.ofFloat x = ofUnpacked (UnpackedFloat.unpack .binary64 x.toBits.toBitVec) := by
  rw [ofFloat_eq, sign_eq]
  unfold UnpackedFloat.unpack
  have hMantissa := unpackMantissa_eq_iff x
  have hField : exponentField x = 0 ↔
      @UnpackedFloat.unpackExponent .binary64 x.toBits.toBitVec = 0#11 := by
    rw [← BitVec.toNat_inj]
    simp [UnpackedFloat.unpackExponent, exponentField]
  by_cases hTop : exponentField x = 0x7ff
  · rw [if_pos hTop, if_pos ((unpackExponent_eq_iff x).mpr hTop)]
    by_cases hZero : fractionField x = 0
    · rw [if_pos hZero, if_pos (hMantissa.mpr hZero)]
      rfl
    · rw [if_neg hZero, if_neg (mt hMantissa.mp hZero)]
      rfl
  · rw [if_neg hTop, if_neg (mt (unpackExponent_eq_iff x).mp hTop)]
    by_cases hLeast : exponentField x = 0
    · rw [if_pos hLeast, if_pos (hField.mp hLeast)]
      by_cases hZero : fractionField x = 0
      · rw [dif_pos (hMantissa.mpr hZero), hZero]
        rfl
      · rw [dif_neg (mt hMantissa.mp hZero)]
        refine congrArg₂ (Binary64.finite _) ?_ ?_
        · simp [fractionField, UnpackedFloat.unpackMantissa]
        · rw [hField.mp hLeast]
          rfl
    · rw [if_neg hLeast, if_neg (mt hField.mpr hLeast)]
      refine congrArg₂ (Binary64.finite _) ?_ ?_
      · rw [BitVec.toNat_append, ← Nat.shiftLeft_add_eq_or_of_lt (BitVec.isLt _)]
        simp [fractionField, UnpackedFloat.unpackMantissa]
      · simp [exponentField, UnpackedFloat.unpackExponent]
        rfl

/-- Finite doubles are compared by the exponent first. -/
theorem then_eq_eq_iff {exponent exponent' : Int} {significand significand' : Nat} :
    (compare exponent exponent').then (compare significand significand') = .eq ↔
      exponent = exponent' ∧ significand = significand' := by
  rw [Ordering.then_eq_eq, Int.compare_eq_eq, Nat.compare_eq_eq]

/-- Doubles that compare equal stand for the same number. -/
theorem sameNumber_of_beq {first second : UnpackedFloat} (h : first.beq second = true) :
    (ofUnpacked first).SameNumber (ofUnpacked second) := by
  have hCompare : first.compare second = some .eq := eq_of_beq h
  -- Only what is infinite, zero or finite on both sides, with the same sign, can compare equal.
  cases first with
  | notANumber => cases hCompare
  | infinity sign =>
      cases second with
      | infinity sign' =>
          cases sign <;> cases sign' <;> first | exact .infinity _ | cases hCompare
      | _ => cases sign <;> cases hCompare
  | zero sign =>
      cases second with
      | zero sign' =>
          apply Binary64.SameNumber.finite
          rw [signedNumber_zero, signedNumber_zero]
      | notANumber => cases hCompare
      | infinity sign' | finite sign' => cases sign' <;> cases hCompare
  | finite sign mantissa exponent =>
      cases second with
      | finite sign' mantissa' exponent' =>
          have hParts : ((compare exponent exponent').then (compare mantissa mantissa') = .eq) ∧
              sign = sign' := by
            cases sign <;> cases sign' <;> first
              | exact ⟨Option.some.inj hCompare, rfl⟩
              | exact ⟨Ordering.swap_eq_eq.mp (Option.some.inj hCompare), rfl⟩
              | cases hCompare
          obtain ⟨hParts, rfl⟩ := hParts
          obtain ⟨rfl, rfl⟩ := then_eq_eq_iff.mp hParts
          exact .finite rfl
      | notANumber => cases hCompare
      | infinity sign' => cases sign' <;> cases hCompare
      | zero => cases sign <;> cases hCompare

theorem beq_self {x : Float} (h : Binary64.ofFloat x ≠ .nan) : (x == x) = true := by
  rw [ofFloat_eq_ofUnpacked] at h
  have hCompare {unpacked : UnpackedFloat} (hNumber : ofUnpacked unpacked ≠ .nan) :
      unpacked.compare unpacked = some .eq := by
    cases unpacked with
    | notANumber => exact absurd rfl hNumber
    | infinity sign => cases sign <;> rfl
    | zero sign => rfl
    | finite sign mantissa exponent =>
        have hParts : (compare exponent exponent).then (compare mantissa mantissa) = .eq :=
          then_eq_eq_iff.mpr ⟨rfl, rfl⟩
        cases sign with
        | positive => exact congrArg some hParts
        | negative => exact congrArg (fun order => some order.swap) hParts
  have hBeq : (_ == some Ordering.eq) = true := beq_iff_eq.mpr (hCompare h)
  exact hBeq

theorem ofParts_zero (negative : Bool) :
    ofParts negative 0 (-1074) = if negative then -0 else 0 := by
  cases negative <;> decide +kernel

theorem eq_zero_of_ofFloat {x : Float} {negative : Bool} {exponent : Int}
    (h : Binary64.ofFloat x = .finite negative 0 exponent) : x = if negative then -0 else 0 := by
  obtain rfl := exponent_of_zero h rfl
  rw [← ofParts_of_ofFloat h, ofParts_zero]

/-- Doubles are equal just if they stand for the same number. -/
theorem beq_iff_sameNumber {x y : Float} :
    (x == y) = true ↔ (Binary64.ofFloat x).SameNumber (Binary64.ofFloat y) := by
  constructor
  · intro h
    rw [ofFloat_eq_ofUnpacked, ofFloat_eq_ofUnpacked]
    exact sameNumber_of_beq h
  · intro h
    generalize hx : Binary64.ofFloat x = first, hy : Binary64.ofFloat y = second at h
    cases h with
    | infinity negative =>
        have hSame : x = y := by rw [eq_infinite_of_ofFloat hx, eq_infinite_of_ofFloat hy]
        subst hSame
        exact beq_self (by simp [hx])
    | @finite negative negative' significand significand' exponent exponent' hNumber =>
        by_cases hZero : significand = 0
        · subst hZero
          obtain rfl : significand' = 0 := by
            rw [← signedNumber_eq_zero_iff, ← hNumber, signedNumber_zero]
          rw [eq_zero_of_ofFloat hx, eq_zero_of_ofFloat hy]
          cases negative <;> cases negative' <;> decide +kernel
        · have hZero' : significand' ≠ 0 := by
            intro hNot
            apply hZero
            rw [← signedNumber_eq_zero_iff, hNumber, hNot, signedNumber_zero]
          obtain ⟨rfl, hAmount⟩ := signedNumber_inj (Nat.pos_of_ne_zero hZero)
            (Nat.pos_of_ne_zero hZero') hNumber
          obtain ⟨rfl, rfl⟩ := (canonical_of_ofFloat hx (Nat.pos_of_ne_zero hZero)).unique
            (canonical_of_ofFloat hy (Nat.pos_of_ne_zero hZero')) hAmount
          have hSame : x = y := by rw [← ofParts_of_ofFloat hx, ofParts_of_ofFloat hy]
          subst hSame
          exact beq_self (by simp [hx])

end LispReader.Decimal
