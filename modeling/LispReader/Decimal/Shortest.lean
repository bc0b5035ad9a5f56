import LispReader.Decimal.Binary64

/-!
The shortest decimal that reads back as a given double, found by exact arithmetic. Grids of powers
of ten are tried from coarse to fine; on each, only the two neighbours of the value can lie in the
interval of numbers that round to it.
-/

namespace LispReader.Decimal

/-- The numbers that round to a double, in units of `scale / unit`: those between `low` and
`high`, the ends included when `closed`. The value itself is `middle`. -/
structure Interval where
  low : Nat
  middle : Nat
  high : Nat
  closed : Bool
  deriving Repr, DecidableEq

namespace Interval

/-- The interval of `significand * 2 ^ exponent`, counted in quarters of the last place. Below a
power of two the next double is only half as far away, except at the least exponent. The ends
round to an even significand only. -/
def ofFinite (significand : Nat) (exponent : Int) : Interval :=
  let narrow := significand = 1 <<< 52 ∧ -1074 < exponent
  { low := 4 * significand - (if narrow then 1 else 2)
    middle := 4 * significand
    high := 4 * significand + 2
    closed := significand % 2 = 0 }

/-- Whether `count * unit` lies in an interval whose ends are counted in `scale`. -/
def holds (interval : Interval) (scale unit count : Nat) : Bool :=
  let point := count * unit
  if interval.closed then interval.low * scale ≤ point && point ≤ interval.high * scale
  else interval.low * scale < point && point < interval.high * scale

end Interval

/-- The multiple of `unit` in the interval that is nearest to its middle, if there is one. A
middle halfway between two goes to the even one. -/
def nearestOnGrid (interval : Interval) (scale unit : Nat) : Option Nat :=
  let middle := interval.middle * scale
  let below := middle / unit
  let above := below + 1
  match interval.holds scale unit below, interval.holds scale unit above with
  | true, true =>
    let down := middle - below * unit
    let up := above * unit - middle
    if down < up ∨ (down = up ∧ below % 2 = 0) then some below else some above
  | true, false => some below
  | false, true => some above
  | false, false => none

/-- Tries grids of `10 ^ exponent` with falling exponents. With the interval given in units of
`2 ^ binary`, both are multiplied out to whole numbers. -/
def searchGrids (interval : Interval) (binary : Int) : Nat → Int → Nat × Int
  | 0, exponent => (interval.middle, exponent)
  | steps + 1, exponent =>
    let scale := Nat.pow 2 binary.toNat * Nat.pow 10 (-exponent).toNat
    let unit := Nat.pow 2 (-binary).toNat * Nat.pow 10 exponent.toNat
    match nearestOnGrid interval scale unit with
    | some digits => (digits, exponent)
    | none => searchGrids interval binary steps (exponent - 1)

/-- The shortest digits and their exponent for a positive double: of all decimals that read back
as it, one with the fewest digits, and of those the nearest. The first grid is coarser than the
number itself, and seventeen digits always suffice, so that the search ends in time. -/
def shortest (significand : Nat) (exponent : Int) : Nat × Int :=
  let magnitude : Int := (Nat.log2 significand : Int) + exponent
  let coarse := Int.fdiv (magnitude * 30103) 100000 + 2
  searchGrids (.ofFinite significand exponent) (exponent - 2) 24 coarse

end LispReader.Decimal
