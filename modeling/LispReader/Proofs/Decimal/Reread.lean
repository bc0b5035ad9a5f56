import Mathlib.Data.List.Induction
import LispReader.Decimal.Format
import LispReader.Proofs.Decimal.Shape
import LispReader.Proofs.Decimal.Shortest
import LispReader.Proofs.Decimal.Written

/-!
Reading a written double. Wherever the point is put, and whether or not there is an exponent, the
text of a double denotes the number that its shortest digits make; and that number is read as the
double.
-/

namespace LispReader.Decimal

section Digits

theorem digitsValue_append (first second : List Char) :
    digitsValue (first ++ second) =
      digitsValue first * 10 ^ second.length + digitsValue second := by
  induction second using List.reverseRecOn with
  | nil => simp [digitsValue]
  | append_singleton front c ih =>
      rw [← List.append_assoc]
      simp only [digitsValue, List.foldl_append, List.foldl_cons, List.foldl_nil,
        List.length_append, List.length_singleton] at ih ⊢
      rw [ih, pow_succ]
      ring

theorem digitsValue_replicate (count : Nat) : digitsValue (List.replicate count '0') = 0 := by
  induction count with
  | zero => rfl
  | succ count ih =>
      rw [List.replicate_succ', digitsValue_append, ih]
      rfl

theorem integerValue_nil : integerValue [] = 0 := rfl

theorem digitsValue_append_replicate (digits : List Char) (count : Nat) :
    digitsValue (digits ++ List.replicate count '0') = digitsValue digits * 10 ^ count := by
  rw [digitsValue_append, digitsValue_replicate, List.length_replicate, Nat.add_zero]

theorem digitsValue_lt {digits : List Char} (hDigits : ∀ c ∈ digits, c.isDigit = true) :
    digitsValue digits < 10 ^ digits.length := by
  induction digits using List.reverseRecOn with
  | nil => simp [digitsValue]
  | append_singleton front c ih =>
      have hFront := ih fun d hd => hDigits d (by simp [hd])
      have hDigit : digitsValue [c] < 10 := by
        have hc := hDigits c (by simp)
        simp only [Char.isDigit, Bool.and_eq_true, decide_eq_true_eq, ge_iff_le,
          UInt32.le_iff_toNat_le] at hc
        simp only [digitsValue, List.foldl_cons, List.foldl_nil, Char.toNat] at hc ⊢
        simp at hc ⊢
        omega
      rw [digitsValue_append, List.length_append, List.length_singleton, pow_one, pow_succ]
      omega

/-- A whole number that is read is not too long. -/
theorem isShort_of_readInteger {text : List Char} {value : Int}
    (hShape : isInteger text = true) (h : readInteger text = .ok value) : IsShort value := by
  have hDigits := (isDigits_iff.mp hShape).2
  simp only [readInteger] at h
  split at h
  · cases h
  · next hShort =>
      have hValue : value.natAbs = digitsValue (takeSign text).2 := by
        cases h
        simp only [integerValue]
        split <;> simp
      rw [isShort_iff, hValue]
      exact (digitsValue_lt hDigits).trans_le (Nat.pow_le_pow_right (by decide) (by omega))

theorem cast_mul_ten_zpow (count zeros : Nat) (exponent : ℤ) :
    ((count * 10 ^ zeros : ℕ) : ℚ) * 10 ^ exponent = count * 10 ^ ((zeros : ℤ) + exponent) := by
  rw [zpow_add₀ (by norm_num), zpow_natCast]
  push_cast
  ring

end Digits

namespace Parts

/-- The number that is written. -/
def number (parts : Parts) : ℚ :=
  digitsValue (parts.whole ++ parts.fraction) *
    10 ^ (integerValue parts.exponent - parts.fraction.length)

/-- What stands behind the digits before the point: a point with digits, or nothing. -/
def IsFraction (text fraction : List Char) : Prop :=
  (text = [] ∧ fraction = []) ∨ text = '.' :: fraction ∧ ∀ c ∈ fraction, c.isDigit = true

/-- What stands behind all of them: an exponent, or nothing. -/
def IsExponent (text exponent : List Char) : Prop :=
  (text = [] ∧ exponent = []) ∨ text = 'e' :: exponent ∧ isInteger exponent = true

theorem ofText?_append {sign whole fractionText fraction exponentText exponent : List Char}
    (hSign : IsSign sign) (hWhole : isDigits whole = true)
    (hFraction : IsFraction fractionText fraction)
    (hExponent : IsExponent exponentText exponent) :
    ofText? (sign ++ (whole ++ (fractionText ++ exponentText))) =
      some ⟨sign == ['-'], whole, fraction, exponent⟩ := by
  obtain ⟨hSome, hDigits⟩ := isDigits_iff.mp hWhole
  have hTaken : takeSign (sign ++ (whole ++ (fractionText ++ exponentText))) =
      (sign == ['-'], whole ++ (fractionText ++ exponentText)) := by
    refine takeSign_append hSign fun c hc => ?_
    obtain ⟨d, others, rfl⟩ := List.exists_cons_of_ne_nil hSome
    obtain rfl : d = c := by simpa using hc
    exact hDigits d List.mem_cons_self
  have hBehind : ∀ c ∈ exponentText.head?, c.isDigit = false ∧ c ≠ '.' := by
    obtain ⟨rfl, -⟩ | ⟨rfl, -⟩ := hExponent <;> simp
  have hCut : (whole ++ (fractionText ++ exponentText)).span Char.isDigit =
      (whole, fractionText ++ exponentText) := by
    refine span_eq_iff.mpr ⟨rfl, hDigits, ?_⟩
    obtain ⟨rfl, -⟩ | ⟨rfl, -⟩ := hFraction
    · exact fun c hc => (hBehind c hc).1
    · simp
  have hEmpty : whole.isEmpty = false := by simpa using hSome
  unfold ofText?
  rw [hTaken]
  simp only [hCut, hEmpty, Bool.false_and, Bool.false_eq_true, if_false]
  obtain ⟨rfl, rfl⟩ | ⟨rfl, hFraction⟩ := hFraction
  · obtain ⟨rfl, rfl⟩ | ⟨rfl, hInteger⟩ := hExponent
    · rfl
    · simp [hInteger]
  · have hRest : (fraction ++ exponentText).span Char.isDigit = (fraction, exponentText) :=
      span_eq_iff.mpr ⟨rfl, hFraction, fun c hc => (hBehind c hc).1⟩
    simp only [List.cons_append, hRest]
    obtain ⟨rfl, rfl⟩ | ⟨rfl, hInteger⟩ := hExponent
    · rfl
    · simp [hInteger]

end Parts

/-- A text is taken apart, and its parts make a number. -/
def Shows (text : List Char) (negative : Bool) (number : ℚ) : Prop :=
  ∃ parts, Parts.ofText? text = some parts ∧ parts.negative = negative ∧ parts.number = number

section Layouts

variable {sign digits : List Char} (hSign : IsSign sign) (hDigits : isDigits digits = true)
include hSign hDigits

theorem shows_append {fractionText fraction exponentText exponent : List Char}
    (hFraction : Parts.IsFraction fractionText fraction)
    (hExponent : Parts.IsExponent exponentText exponent) :
    Shows (sign ++ (digits ++ (fractionText ++ exponentText))) (sign == ['-'])
      (digitsValue (digits ++ fraction) * 10 ^ (integerValue exponent - fraction.length)) :=
  ⟨_, Parts.ofText?_append hSign hDigits hFraction hExponent, rfl, rfl⟩

/-- A point among the digits or behind them, where zeros fill the places in front of it. -/
theorem shows_pointed (count : Nat) :
    Shows (sign ++ FloatFormat.pointed digits count) (sign == ['-'])
      (digitsValue digits * 10 ^ ((count : ℤ) + 1 - digits.length)) := by
  have hAll := (isDigits_iff.mp hDigits).2
  unfold FloatFormat.pointed
  dsimp only
  by_cases hShort : digits.length ≤ count + 1
  · rw [List.take_of_length_le hShort, List.drop_eq_nil_of_le hShort]
    generalize hZeros : count + 1 - digits.length = zeros
    have hFraction : Parts.IsFraction ['.', '0'] ['0'] := .inr ⟨rfl, by simp⟩
    have hShows := shows_append hSign (isDigits_append hDigits (isDigits_replicate zeros))
      hFraction (.inl ⟨rfl, rfl⟩)
    have hPower : ((zeros + 1 : ℕ) : ℤ) + (integerValue [] - (['0'].length : ℕ)) =
        (count : ℤ) + 1 - digits.length := by
      simp only [integerValue_nil, List.length_singleton]
      omega
    have hValue : digitsValue (digits ++ List.replicate zeros '0' ++ ['0']) =
        digitsValue digits * 10 ^ (zeros + 1) := by
      rw [List.append_assoc, ← List.replicate_succ', digitsValue_append_replicate]
    rw [hValue, cast_mul_ten_zpow, hPower] at hShows
    simpa using hShows
  · have hSome : isDigits (digits.take (count + 1)) = true := by
      refine isDigits_iff.mpr ⟨?_, fun c hc => hAll c (List.mem_of_mem_take hc)⟩
      simp [(isDigits_iff.mp hDigits).1]
    have hRest : (digits.drop (count + 1)).isEmpty = false := by
      simpa using hShort
    have hFraction : Parts.IsFraction ('.' :: digits.drop (count + 1)) (digits.drop (count + 1)) :=
      .inr ⟨rfl, fun c hc => hAll c (List.mem_of_mem_drop hc)⟩
    have hShows := shows_append hSign hSome hFraction (.inl ⟨rfl, rfl⟩)
    have hPower : integerValue [] - ((digits.drop (count + 1)).length : ℕ) =
        (count : ℤ) + 1 - digits.length := by
      simp only [integerValue_nil, List.length_drop]
      omega
    rw [List.take_append_drop, hPower] at hShows
    rw [Nat.sub_eq_zero_of_le (by omega), hRest]
    simpa using hShows

/-- The point may stand anywhere, with zeros where it stands outside of the digits. -/
theorem shows_plain (exponent : Int) :
    Shows (sign ++ FloatFormat.plain digits exponent) (sign == ['-'])
      (digitsValue digits * 10 ^ (exponent + 1 - digits.length)) := by
  unfold FloatFormat.plain
  split
  · next hWhole =>
      obtain ⟨count, rfl⟩ := Int.eq_ofNat_of_zero_le hWhole
      exact shows_pointed hSign hDigits count
  · next hBehind =>
      generalize hZeros : (-exponent - 1).toNat = zeros
      have hFraction : ∀ c ∈ List.replicate zeros '0' ++ digits, c.isDigit = true := by
        intro c hc
        exact (List.mem_append.mp hc).elim (isDigits_replicate zeros c)
          ((isDigits_iff.mp hDigits).2 c)
      have hZero : isDigits ['0'] = true := rfl
      have hShows := shows_append hSign hZero (.inr ⟨rfl, hFraction⟩) (.inl ⟨rfl, rfl⟩)
      have hPower : integerValue [] - ((List.replicate zeros '0' ++ digits).length : ℕ) =
          exponent + 1 - digits.length := by
        simp only [integerValue_nil, List.length_append, List.length_replicate]
        omega
      have hValue : digitsValue (['0'] ++ (List.replicate zeros '0' ++ digits)) =
          digitsValue digits := by
        rw [← List.append_assoc, List.singleton_append, ← List.replicate_succ, digitsValue_append,
          digitsValue_replicate, Nat.zero_mul, Nat.zero_add]
      rw [hValue, hPower] at hShows
      simpa using hShows

theorem shows_scientific (format : FloatFormat) (exponent : Int) :
    Shows (sign ++ format.scientific digits exponent) (sign == ['-'])
      (digitsValue digits * 10 ^ (exponent + 1 - digits.length)) := by
  obtain ⟨hSome, hAll⟩ := isDigits_iff.mp hDigits
  unfold FloatFormat.scientific
  dsimp only
  generalize hPower : padZeros format.exponentWidth (Nat.toDigits 10 exponent.natAbs) = power
  have hPowerDigits : isDigits power = true := by
    have hExponent := isDigits_iff.mp (isDigits_toDigits exponent.natAbs)
    refine isDigits_iff.mpr ⟨by simp [← hPower, padZeros, hExponent.1], fun c hc => ?_⟩
    rw [← hPower] at hc
    exact (List.mem_append.mp hc).elim (isDigits_replicate _ c) (hExponent.2 c)
  have hPowerValue : digitsValue power = exponent.natAbs := by
    rw [← hPower, padZeros, digitsValue_append, digitsValue_replicate, Nat.zero_mul, Nat.zero_add,
      digitsValue_toDigits]
  generalize hMark : (if exponent < 0 then '-' else '+') = mark
  have hTaken : takeSign (mark :: power) = (decide (exponent < 0), power) := by
    subst hMark
    split <;> simp_all [takeSign]
  have hInteger : isInteger (mark :: power) = true := by
    rw [isInteger, hTaken]
    exact hPowerDigits
  have hValue : integerValue (mark :: power) = exponent := by
    rw [integerValue, hTaken]
    simp only [hPowerValue, decide_eq_true_eq]
    split <;> omega
  have hFraction : Parts.IsFraction
      (if (digits.drop 1).isEmpty then [] else '.' :: digits.drop 1) (digits.drop 1) := by
    split
    · next hNone => exact .inl ⟨rfl, by simpa using hNone⟩
    · exact .inr ⟨rfl, fun c hc => hAll c (List.mem_of_mem_drop hc)⟩
  have hFirst : isDigits (digits.take 1) = true :=
    isDigits_iff.mpr ⟨by simp [hSome], fun c hc => hAll c (List.mem_of_mem_take hc)⟩
  have hShows := shows_append hSign hFirst hFraction (.inr ⟨rfl, hInteger⟩)
  have hLength : 0 < digits.length := List.length_pos_iff.2 hSome
  have hNumber : integerValue (mark :: power) - ((digits.drop 1).length : ℕ) =
      exponent + 1 - digits.length := by
    rw [hValue, List.length_drop]
    omega
  rw [List.take_append_drop, hNumber] at hShows
  simpa using hShows

omit hDigits in
theorem shows_magnitude (format : FloatFormat) (number : Nat × Int) :
    Shows (sign ++ format.magnitude number) (sign == ['-']) (number.1 * 10 ^ number.2) := by
  have hDigits := isDigits_toDigits number.1
  have hPower : number.2 + (Nat.toDigits 10 number.1).length - 1 + 1 -
      (Nat.toDigits 10 number.1).length = number.2 := by
    omega
  have hPlain := shows_plain hSign hDigits (number.2 + (Nat.toDigits 10 number.1).length - 1)
  have hScientific := shows_scientific hSign hDigits format
    (number.2 + (Nat.toDigits 10 number.1).length - 1)
  rw [digitsValue_toDigits, hPower] at hPlain hScientific
  unfold FloatFormat.magnitude
  dsimp only
  split
  · exact hPlain
  · exact hScientific

end Layouts

theorem Shows.readFloat?_eq {text : List Char} {negative : Bool} {number : ℚ} {significand : Nat}
    {exponent : Int} (hShows : Shows text negative number)
    (hCanonical : Canonical significand exponent) (hRounds : RoundsTo number significand exponent) :
    readFloat? text = some (ofParts negative significand exponent) := by
  obtain ⟨parts, hParts, rfl, rfl⟩ := hShows
  have hDigits : 0 < digitsValue (parts.whole ++ parts.fraction) := by
    refine Nat.pos_of_ne_zero fun hZero => ?_
    have hLeast := (hRounds.range hCanonical).1
    rw [Parts.number, hZero, Nat.cast_zero, zero_mul] at hLeast
    exact absurd hLeast (not_le.2 (by positivity))
  rw [readFloat?, hParts]
  exact congrArg some (nearestFloat_eq hDigits hCanonical hRounds parts.negative)

/-- What is written for a finite double is read as the double, however it is laid out. -/
theorem readFloat?_text (format : FloatFormat) {x : Float} {negative : Bool} {significand : Nat}
    {exponent : Int} (hFinite : Binary64.ofFloat x = .finite negative significand exponent) :
    readFloat? (format.text x).toList = some x := by
  have hSign : IsSign (if negative then ['-'] else []) := by
    cases negative
    · exact .inl rfl
    · exact .inr (.inr rfl)
  have hNegative : ((if negative then ['-'] else []) == ['-']) = negative := by
    cases negative <;> rfl
  rw [format.toList_text hFinite, ← ofParts_of_ofFloat hFinite]
  by_cases hZero : significand = 0
  · subst hZero
    obtain rfl := exponent_of_zero hFinite rfl
    have hWhole : isDigits ['0'] = true := rfl
    have hFraction : Parts.IsFraction ['.', '0'] ['0'] := .inr ⟨rfl, by simp⟩
    have hParts := Parts.ofText?_append hSign hWhole hFraction (.inl ⟨rfl, rfl⟩)
    rw [hNegative] at hParts
    have hValue : Parts.value ⟨negative, ['0'], ['0'], []⟩ = ofParts negative 0 (-1074) := by
      simp [Parts.value, nearestFloat, digitsValue, ofParts, positiveBits]
    rw [if_pos rfl, ← hValue, readFloat?]
    exact congrArg (Parts.value <$> ·) hParts
  · rw [if_neg hZero]
    have hCanonical := canonical_of_ofFloat hFinite (Nat.pos_of_ne_zero hZero)
    have hShows := shows_magnitude hSign format (shortest significand exponent)
    rw [hNegative] at hShows
    exact hShows.readFloat?_eq hCanonical (roundsTo_shortest hCanonical)

end LispReader.Decimal
