import LispReader.Decimal.Binary64

/-!
Doubles by their kind. The exact value of a double is infinite, or no number, just where the tests
on doubles say so, and there is one infinite double of each sign. The bits of a double that is not
infinite give the double back.
-/

namespace LispReader.Decimal

open Float.Model (UnpackedFloat)
open Float.Model.UnpackedFloat (Sign packComponents unpackSign unpackExponent unpackMantissa)

/-- The field of the exponent, and that of the fraction. -/
def exponentField (x : Float) : Nat :=
  x.toBits.toNat >>> 52 % 0x800

def fractionField (x : Float) : Nat :=
  x.toBits.toNat % (1 <<< 52)

theorem unpackExponent_eq_iff (x : Float) :
    @UnpackedFloat.unpackExponent .binary64 x.toBits.toBitVec = -1#11 ↔
      exponentField x = 0x7ff := by
  rw [← BitVec.toNat_inj]
  simp [UnpackedFloat.unpackExponent, exponentField]

theorem unpackMantissa_eq_iff (x : Float) :
    @UnpackedFloat.unpackMantissa .binary64 x.toBits.toBitVec = 0#52 ↔
      fractionField x = 0 := by
  rw [← BitVec.toNat_inj]
  simp [UnpackedFloat.unpackMantissa, fractionField]

theorem isFinite_of_exponentField {x : Float} (hExponent : exponentField x ≠ 0x7ff) :
    x.isFinite = true := by
  have hUnpack := mt (unpackExponent_eq_iff x).1 hExponent
  change (UnpackedFloat.unpack .binary64 x.toBits.toBitVec).isFinite = true
  unfold UnpackedFloat.unpack
  rw [if_neg hUnpack]
  by_cases hLeast : @UnpackedFloat.unpackExponent .binary64 x.toBits.toBitVec = 0#11
  · rw [if_pos hLeast]
    by_cases hZero : @UnpackedFloat.unpackMantissa .binary64 x.toBits.toBitVec = 0#52
    · rw [dif_pos hZero]
      rfl
    · rw [dif_neg hZero]
      rfl
  · rw [if_neg hLeast]
    rfl

theorem exponentField_of_isFinite {x : Float} (hFinite : x.isFinite = true) :
    exponentField x ≠ 0x7ff := by
  intro hExponent
  have hUnpack := (unpackExponent_eq_iff x).2 hExponent
  change (UnpackedFloat.unpack .binary64 x.toBits.toBitVec).isFinite = true at hFinite
  unfold UnpackedFloat.unpack at hFinite
  rw [if_pos hUnpack] at hFinite
  split at hFinite <;> cases hFinite

/-- A finite double is a number. -/
theorem isNaN_of_isFinite {x : Float} (hFinite : x.isFinite = true) : x.isNaN = false := by
  change (UnpackedFloat.unpack .binary64 x.toBits.toBitVec).isFinite = true at hFinite
  change (UnpackedFloat.unpack .binary64 x.toBits.toBitVec).isNaN = false
  generalize UnpackedFloat.unpack .binary64 x.toBits.toBitVec = unpacked at hFinite ⊢
  cases unpacked with
  | notANumber => cases hFinite
  | infinity | zero | finite => rfl

theorem isNaN_of_fields {x : Float} (hExponent : exponentField x = 0x7ff)
    (hFraction : fractionField x ≠ 0) : x.isNaN = true := by
  have hUnpack := (unpackExponent_eq_iff x).2 hExponent
  have hMantissa := mt (unpackMantissa_eq_iff x).1 hFraction
  change (UnpackedFloat.unpack .binary64 x.toBits.toBitVec).isNaN = true
  unfold UnpackedFloat.unpack
  rw [if_pos hUnpack, if_neg hMantissa]
  rfl

/-- Doubles with the same bits are the same. -/
theorem eq_of_toBits {x y : Float} (hBits : x.toBits.toNat = y.toBits.toNat) : x = y := by
  obtain ⟨⟨bits, hValid⟩⟩ := x
  obtain ⟨⟨others, hOthers⟩⟩ := y
  obtain rfl : bits = others := UInt64.toNat_inj.1 hBits
  rfl

/-- The infinite double of a sign. -/
def infinite (negative : Bool) : Float :=
  if negative then -1.0 / 0.0 else 1.0 / 0.0

theorem toBits_infinite (negative : Bool) :
    (infinite negative).toBits.toNat = (if negative then 1 <<< 63 else 0) + 0x7ff <<< 52 := by
  cases negative <;> decide +kernel

theorem ofFloat_eq (x : Float) :
    Binary64.ofFloat x =
      if exponentField x = 0x7ff then
        if fractionField x = 0 then .infinity (x.toBits.toNat >>> 63 % 2 == 1) else .nan
      else if exponentField x = 0 then
        .finite (x.toBits.toNat >>> 63 % 2 == 1) (fractionField x) (-1074)
      else
        .finite (x.toBits.toNat >>> 63 % 2 == 1) ((1 <<< 52) + fractionField x)
          ((exponentField x : Int) - 1075) := rfl

theorem exists_of_isFinite {x : Float} (hFinite : x.isFinite = true) :
    ∃ negative significand exponent,
      Binary64.ofFloat x = .finite negative significand exponent := by
  rw [ofFloat_eq, if_neg (exponentField_of_isFinite hFinite)]
  split <;> exact ⟨_, _, _, rfl⟩

theorem isFinite_of_ofFloat {x : Float} {negative : Bool} {significand : Nat} {exponent : Int}
    (hValue : Binary64.ofFloat x = .finite negative significand exponent) : x.isFinite = true := by
  refine isFinite_of_exponentField fun hExponent => ?_
  rw [ofFloat_eq, if_pos hExponent] at hValue
  split at hValue <;> cases hValue

theorem isNaN_of_ofFloat {x : Float} (hValue : Binary64.ofFloat x = .nan) : x.isNaN = true := by
  rw [ofFloat_eq] at hValue
  split at hValue
  · next hExponent =>
      split at hValue
      · cases hValue
      · next hFraction => exact isNaN_of_fields hExponent hFraction
  · split at hValue <;> cases hValue

/-- There is one double that is no number. -/
theorem eq_of_ofFloat_eq_nan {x y : Float} (hx : Binary64.ofFloat x = .nan)
    (hy : Binary64.ofFloat y = .nan) : x = y := by
  have hPacked : ∀ {z : Float}, Binary64.ofFloat z = .nan →
      z.toBits.toBitVec = UnpackedFloat.packedNaN .binary64 := by
    intro z hz
    rw [ofFloat_eq] at hz
    split at hz
    · next hExponent =>
        split at hz
        · cases hz
        · next hFraction =>
            exact z.toModel.valid.eq_packedNaN ((unpackExponent_eq_iff z).2 hExponent)
              (mt (unpackMantissa_eq_iff z).1 hFraction)
    · split at hz <;> cases hz
  refine eq_of_toBits (congrArg BitVec.toNat ?_)
  rw [hPacked hx, hPacked hy]

theorem eq_infinite_of_ofFloat {x : Float} {negative : Bool}
    (hValue : Binary64.ofFloat x = .infinity negative) : x = infinite negative := by
  rw [ofFloat_eq] at hValue
  split at hValue
  · next hExponent =>
      split at hValue
      · next hFraction =>
          cases hValue
          have hBits := x.toBits.toNat_lt
          refine eq_of_toBits ?_
          rw [toBits_infinite]
          simp only [exponentField, fractionField, Nat.shiftRight_eq_div_pow,
            Nat.shiftLeft_eq] at hExponent hFraction ⊢
          split <;> simp at * <;> omega
      · cases hValue
  · split at hValue <;> cases hValue

/-- The bits of a double are its sign, its exponent field and its fraction field. -/
theorem packComponents_unpack (bits : BitVec 64) :
    packComponents .binary64 (Sign.ofBitVec (@unpackSign .binary64 bits))
      (@unpackExponent .binary64 bits) (@unpackMantissa .binary64 bits) = bits := by
  have hSign : ∀ sign : BitVec 1, (Sign.ofBitVec sign).toBitVec = sign := by decide
  have hUpper : bits.extractLsb' 63 1 ++ bits.extractLsb' 52 11 = bits.extractLsb' 52 12 :=
    BitVec.extractLsb'_append_extractLsb'_eq_extractLsb' rfl
  have hLower : bits.extractLsb' 52 12 ++ bits.extractLsb' 0 52 = bits.extractLsb' 0 64 :=
    BitVec.extractLsb'_append_extractLsb'_eq_extractLsb' rfl
  rw [packComponents, hSign]
  calc (bits.extractLsb' 63 1 ++ bits.extractLsb' 52 11) ++ bits.extractLsb' 0 52
    _ = bits.extractLsb' 0 64 := by rw [hUpper, hLower]
    _ = bits := BitVec.extractLsb'_eq_self

theorem pack_of_lt (sign : Sign) (fraction : BitVec 52) {exponent : Int}
    (hExponent : exponent = -1074) (hPos : 0 < fraction.toNat) :
    UnpackedFloat.pack .binary64 (.finite sign fraction.toNat exponent hPos) =
      packComponents .binary64 sign 0#11 fraction := by
  subst hExponent
  have hLog : fraction.toNat.log2 + 1 ≠ Float.Model.Format.binary64.mantissaBits := by
    have hLt := (Nat.log2_lt (Nat.ne_of_gt hPos)).2 fraction.isLt
    have hBits : Float.Model.Format.binary64.mantissaBits = 53 := rfl
    omega
  unfold UnpackedFloat.pack
  dsimp only
  rw [if_neg (by decide), if_neg hLog]
  simp

theorem pack_of_le (sign : Sign) {field : BitVec 11} (fraction : BitVec 52) {exponent : Int}
    (hExponent : exponent = (field.toNat : Int) - 1075)
    (hPos : 0 < (1#1 ++ fraction).toNat) (hField : field ≠ -1#11) :
    UnpackedFloat.pack .binary64 (.finite sign (1#1 ++ fraction).toNat exponent hPos) =
      packComponents .binary64 sign field fraction := by
  have hFraction := fraction.isLt
  have hLess : field.toNat + 1 < 2 ^ 11 := by
    have hLt := field.isLt
    have hNe : field.toNat ≠ 2047 := fun h => hField (BitVec.eq_of_toNat_eq h)
    omega
  have hBiased : (exponent + Float.Model.Format.binary64.exponentBias + (52 : Nat)).toNat =
      field.toNat := by
    have hBias : Float.Model.Format.binary64.exponentBias = 1023 := rfl
    omega
  have hValue : (1#1 ++ fraction).toNat = 2 ^ 52 + fraction.toNat := by
    rw [BitVec.toNat_append, ← Nat.shiftLeft_add_eq_or_of_lt hFraction]
    rfl
  have hLog : (1#1 ++ fraction).toNat.log2 + 1 = Float.Model.Format.binary64.mantissaBits := by
    rw [(Nat.log2_eq_iff (by omega)).2 (by omega : 2 ^ 52 ≤ _ ∧ _ < 2 ^ (52 + 1))]
    rfl
  unfold UnpackedFloat.pack
  dsimp only
  rw [hBiased, if_neg (by omega), if_pos hLog]
  congr 1
  · exact BitVec.eq_of_toNat_eq (by simp)
  · refine BitVec.eq_of_toNat_eq ?_
    rw [BitVec.toNat_ofNat, hValue]
    omega

/-- Taking the bits of a double apart and putting them together gives them back. -/
theorem pack_unpack {bits : BitVec 64} (h : @unpackExponent .binary64 bits ≠ -1#11) :
    UnpackedFloat.pack .binary64 (UnpackedFloat.unpack .binary64 bits) = bits := by
  have hBits := packComponents_unpack bits
  unfold UnpackedFloat.unpack
  dsimp only
  rw [if_neg h]
  by_cases hLeast : @unpackExponent .binary64 bits = 0#11
  · rw [if_pos hLeast]
    rw [hLeast] at hBits
    by_cases hZero : @unpackMantissa .binary64 bits = 0#52
    · rw [dif_pos hZero]
      rw [hZero] at hBits
      exact hBits
    · rw [dif_neg hZero]
      refine (pack_of_lt _ _ ?_ _).trans hBits
      rw [hLeast]
      rfl
  · rw [if_neg hLeast]
    exact (pack_of_le _ _ rfl _ h).trans hBits

theorem ofBits_toBits {x : Float} (h : exponentField x ≠ 0x7ff) :
    Float.ofBits x.toBits = x := by
  have hBits := pack_unpack (mt (unpackExponent_eq_iff x).1 h)
  exact eq_of_toBits (congrArg BitVec.toNat hBits)

end LispReader.Decimal
