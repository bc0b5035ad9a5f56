import LispReader.Decimal.Format
import LispReader.Proofs.Decimal.Nearest

/-!
The shortest digits of a double. What the search returns lies on a grid of decimal numbers, in the
interval of the double. The finest grid that is tried has a point in every such interval, so the
search does not come to its end without one.
-/

namespace LispReader.Decimal

theorem holds_of_nearestOnGrid {interval : Interval} {scale unit count : Nat}
    (hCount : nearestOnGrid interval scale unit = some count) :
    interval.holds scale unit count = true := by
  simp only [nearestOnGrid] at hCount
  split at hCount
  · next hBelow hAbove =>
      split at hCount <;> cases hCount
      · exact hBelow
      · exact hAbove
  · next hBelow _ =>
      cases hCount
      exact hBelow
  · next _ hAbove =>
      cases hCount
      exact hAbove
  · cases hCount

/-- An interval of positive numbers holds positive multiples only. -/
theorem pos_of_holds {interval : Interval} {scale unit count : Nat} (hLow : 0 < interval.low)
    (hScale : 0 < scale) (hHolds : interval.holds scale unit count = true) : 0 < count := by
  have hProduct : 0 < interval.low * scale := Nat.mul_pos hLow hScale
  refine Nat.pos_of_ne_zero ?_
  rintro rfl
  simp only [Interval.holds, Nat.zero_mul] at hHolds
  split at hHolds <;> simp only [Bool.and_eq_true, decide_eq_true_eq] at hHolds <;> omega

theorem searchGrids_pos {interval : Interval} (hLow : 0 < interval.low)
    (hMiddle : 0 < interval.middle) (binary : Int) (steps : Nat) (exponent : Int) :
    0 < (searchGrids interval binary steps exponent).1 := by
  induction steps generalizing exponent with
  | zero => exact hMiddle
  | succ steps ih =>
      simp only [searchGrids]
      split
      · next hCount =>
          refine pos_of_holds hLow ?_ (holds_of_nearestOnGrid hCount)
          exact Nat.mul_pos (Nat.pow_pos (by decide)) (Nat.pow_pos (by decide))
      · exact ih _

/-- The shortest digits of a positive double are not zero. -/
theorem shortest_pos {significand : Nat} (hPos : 0 < significand) (exponent : Int) :
    0 < (shortest significand exponent).1 := by
  refine searchGrids_pos ?_ ?_ _ _ _
  · simp only [Interval.ofFinite]
    split <;> omega
  · simp only [Interval.ofFinite]
    omega

/-- Whether a multiple lies in an interval. -/
theorem Interval.holds_iff {interval : Interval} {scale unit count : Nat} (hScale : 0 < scale) :
    interval.holds scale unit count = true ↔ interval.Contains ((count * unit : Nat) / scale) := by
  have hPos : (0 : ℚ) < scale := by exact_mod_cast hScale
  have hLe (bound : Nat) : bound * scale ≤ count * unit ↔
      (bound : ℚ) ≤ (count * unit : Nat) / scale := by
    rw [le_div_iff₀ hPos]
    exact_mod_cast Iff.rfl
  have hGe (bound : Nat) : count * unit ≤ bound * scale ↔
      ((count * unit : Nat) : ℚ) / scale ≤ bound := by
    rw [div_le_iff₀ hPos]
    exact_mod_cast Iff.rfl
  have hLt (bound : Nat) : bound * scale < count * unit ↔
      (bound : ℚ) < (count * unit : Nat) / scale := by
    rw [lt_div_iff₀ hPos]
    exact_mod_cast Iff.rfl
  have hGt (bound : Nat) : count * unit < bound * scale ↔
      ((count * unit : Nat) : ℚ) / scale < bound := by
    rw [div_lt_iff₀ hPos]
    exact_mod_cast Iff.rfl
  unfold Interval.holds
  cases hClosed : interval.closed with
  | true =>
      simp only [if_true, Bool.and_eq_true, decide_eq_true_eq, hLe, hGe]
      exact ⟨fun ⟨hLow, hHigh⟩ => ⟨hLow, hHigh, .inl hClosed⟩, fun h => ⟨h.low, h.high⟩⟩
  | false =>
      simp only [Bool.false_eq_true, if_false, Bool.and_eq_true, decide_eq_true_eq, hLt, hGt]
      constructor
      · rintro ⟨hLow, hHigh⟩
        exact ⟨hLow.le, hHigh.le, .inr ⟨hLow, hHigh⟩⟩
      · intro h
        exact h.inside.resolve_left (by simp [hClosed])

/-- On a grid that is finer than the upper half of an interval, a neighbour of its middle lies in
the interval. -/
theorem nearestOnGrid_ne_none {interval : Interval} {scale unit : Nat}
    (hLow : interval.low ≤ interval.middle) (hUnit : 0 < unit)
    (hFine : interval.middle * scale + unit < interval.high * scale) :
    nearestOnGrid interval scale unit ≠ none := by
  have hAbove : interval.holds scale unit (interval.middle * scale / unit + 1) = true := by
    have hBelow : interval.middle * scale / unit * unit ≤ interval.middle * scale :=
      Nat.div_mul_le_self ..
    have hNext : interval.middle * scale < (interval.middle * scale / unit + 1) * unit :=
      (Nat.lt_mul_div_succ _ hUnit).trans_eq (Nat.mul_comm ..)
    have hScaled := Nat.mul_le_mul_right scale hLow
    rw [Nat.add_mul] at hNext
    unfold Interval.holds
    simp only [Nat.add_mul]
    split <;> simp only [Bool.and_eq_true, decide_eq_true_eq] <;> omega
  simp only [nearestOnGrid, hAbove]
  cases interval.holds scale unit (interval.middle * scale / unit) with
  | true =>
      dsimp only
      split <;> exact Option.some_ne_none _
  | false => exact Option.some_ne_none _

section Grid

/-- The unit of an interval and the step of a grid, both multiplied out. -/
def gridScale (binary exponent : Int) : Nat :=
  2 ^ binary.toNat * 10 ^ (-exponent).toNat

def gridUnit (binary exponent : Int) : Nat :=
  2 ^ (-binary).toNat * 10 ^ exponent.toNat

variable (binary exponent : Int)

theorem gridScale_pos : 0 < gridScale binary exponent := by
  unfold gridScale
  positivity

theorem gridUnit_pos : 0 < gridUnit binary exponent := by
  unfold gridUnit
  positivity

theorem grid_ratio (count : Nat) :
    ((count * gridUnit binary exponent : Nat) : ℚ) / gridScale binary exponent =
      count * 10 ^ exponent / 2 ^ binary := by
  rw [zpow_eq_div 10, zpow_eq_div 2, gridUnit, gridScale]
  push_cast
  field_simp

theorem gridUnit_lt (hFine : (10 : ℚ) ^ exponent < 2 ^ (binary + 1)) :
    gridUnit binary exponent < 2 * gridScale binary exponent := by
  have hScale : (0 : ℚ) < gridScale binary exponent := by
    exact_mod_cast gridScale_pos binary exponent
  have hRatio := grid_ratio binary exponent 1
  rw [Nat.one_mul, Nat.cast_one, one_mul, div_eq_iff (ne_of_gt hScale)] at hRatio
  have hLess : (10 : ℚ) ^ exponent / 2 ^ binary < 2 := by
    rw [div_lt_iff₀ (by positivity), mul_comm, ← zpow_add_one₀ two_ne_zero]
    exact hFine
  have hCast : (gridUnit binary exponent : ℚ) < 2 * gridScale binary exponent := by
    rw [hRatio]
    gcongr
  exact_mod_cast hCast

theorem searchGrids_succ (interval : Interval) (steps : Nat) :
    searchGrids interval binary (steps + 1) exponent =
      match nearestOnGrid interval (gridScale binary exponent) (gridUnit binary exponent) with
      | some digits => (digits, exponent)
      | none => searchGrids interval binary steps (exponent - 1) := rfl

end Grid

/-- What is found on the grids is a number of the interval, if the last of them is fine enough. -/
theorem contains_searchGrids {interval : Interval} (hLow : interval.low ≤ interval.middle)
    (hHigh : interval.middle + 2 ≤ interval.high) {binary : Int} (steps : Nat) {exponent : Int}
    (hFine : (10 : ℚ) ^ (exponent - steps) < 2 ^ (binary + 1)) :
    interval.Contains ((searchGrids interval binary (steps + 1) exponent).1 *
      10 ^ (searchGrids interval binary (steps + 1) exponent).2 / 2 ^ binary) := by
  have hFound (exponent : Int) {digits : Nat}
      (hGrid : nearestOnGrid interval (gridScale binary exponent) (gridUnit binary exponent) =
        some digits) : interval.Contains (digits * 10 ^ exponent / 2 ^ binary) := by
    rw [← grid_ratio]
    exact (Interval.holds_iff (gridScale_pos binary exponent)).1 (holds_of_nearestOnGrid hGrid)
  induction steps generalizing exponent with
  | zero =>
      rw [searchGrids_succ]
      split
      · next digits hGrid => exact hFound exponent hGrid
      · next hNone =>
          refine absurd hNone (nearestOnGrid_ne_none hLow (gridUnit_pos binary exponent) ?_)
          have hUnit := gridUnit_lt binary exponent (by simpa using hFine)
          have hScaled := Nat.mul_le_mul_right (gridScale binary exponent) hHigh
          rw [Nat.add_mul] at hScaled
          omega
  | succ steps ih =>
      rw [searchGrids_succ]
      split
      · next digits hGrid => exact hFound exponent hGrid
      · refine ih ?_
        rwa [sub_sub, add_comm (1 : ℤ), ← Nat.cast_add_one]

/-- Twenty-eight powers of ten are more than ninety-three powers of two, and less than one more. -/
theorem ten_zpow_lt_two_zpow {power exponent : ℤ} (hPositive : 94 * power < 28 * exponent)
    (hNegative : 93 * power < 28 * exponent) : (10 : ℚ) ^ power < 2 ^ exponent := by
  obtain ⟨count, rfl | rfl⟩ := power.eq_nat_or_neg
  · refine lt_of_pow_lt_pow_left₀ 28 (by positivity) ?_
    calc ((10 : ℚ) ^ (count : ℤ)) ^ 28 = (10 ^ 28) ^ count := by
          rw [zpow_natCast, ← pow_mul, ← pow_mul, mul_comm]
      _ ≤ (2 ^ 94) ^ count := by
          gcongr
          norm_num
      _ = 2 ^ (94 * (count : ℤ)) := by
          rw [← pow_mul, ← zpow_natCast]
          push_cast
          rfl
      _ < 2 ^ (28 * exponent) := zpow_lt_zpow_right₀ one_lt_two hPositive
      _ = (2 ^ exponent) ^ 28 := by
          rw [mul_comm, zpow_mul]
          rfl
  · rw [zpow_neg, inv_lt_comm₀ (by positivity) (by positivity), ← zpow_neg]
    refine lt_of_pow_lt_pow_left₀ 28 (by positivity) ?_
    calc ((2 : ℚ) ^ (-exponent)) ^ 28 = 2 ^ (28 * -exponent) := by
          rw [mul_comm, zpow_mul]
          rfl
      _ < 2 ^ (93 * (count : ℤ)) := zpow_lt_zpow_right₀ one_lt_two (by omega)
      _ = (2 ^ 93) ^ count := by
          rw [← pow_mul, ← zpow_natCast]
          push_cast
          rfl
      _ ≤ (10 ^ 28) ^ count := by
          gcongr
          norm_num
      _ = ((10 : ℚ) ^ (count : ℤ)) ^ 28 := by
          rw [zpow_natCast, ← pow_mul, ← pow_mul, mul_comm]

/-- The shortest digits of a positive double are digits of a number that is read as the double. -/
theorem roundsTo_shortest {significand : Nat} {exponent : Int}
    (h : Canonical significand exponent) :
    RoundsTo ((shortest significand exponent).1 * 10 ^ (shortest significand exponent).2)
      significand exponent := by
  obtain ⟨hPos, hLt, hLeast, hGreatest, -⟩ := h
  have hLog : Nat.log2 significand < 53 := (Nat.log2_lt (Nat.ne_of_gt hPos)).2 hLt
  refine contains_searchGrids ?_ ?_ 23 ?_
  · simp only [Interval.ofFinite]
    omega
  · simp [Interval.ofFinite]
  · rw [Int.fdiv_eq_ediv_of_nonneg _ (by decide)]
    refine ten_zpow_lt_two_zpow ?_ ?_ <;> omega

/-- A finite double is written with a minus sign if it is negative, and with its shortest digits. -/
theorem FloatFormat.toList_text (format : FloatFormat) {x : Float} {negative : Bool}
    {significand : Nat} {exponent : Int}
    (hFinite : Binary64.ofFloat x = .finite negative significand exponent) :
    (format.text x).toList = (if negative then ['-'] else []) ++
      if significand = 0 then ['0', '.', '0']
      else format.magnitude (shortest significand exponent) := by
  simp only [FloatFormat.text, hFinite]
  cases negative <;> simp

end LispReader.Decimal
