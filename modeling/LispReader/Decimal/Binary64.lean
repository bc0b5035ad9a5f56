/-!
Double-precision numbers as exact values: a sign, a whole number and a power of two. From this
side every question about a double is a question about whole numbers. `nearestBits` goes the
other way and finds the double nearest to a fraction.
-/

namespace LispReader.Decimal

/-- What a double stands for. A finite one is `significand * 2 ^ exponent`, with the sign kept
apart, so that the two zeros differ. -/
inductive Binary64 where
  | nan
  | infinity (negative : Bool)
  | finite (negative : Bool) (significand : Nat) (exponent : Int)
  deriving Repr, DecidableEq

namespace Binary64

/-- The sign is the highest bit, the next eleven hold the exponent, the rest the fraction. The
least exponent belongs to the numbers without a leading one. -/
def ofBits (bits : Nat) : Binary64 :=
  let negative := (bits >>> 63) % 2 == 1
  let biased : Nat := (bits >>> 52) % 0x800
  let fraction : Nat := bits % (1 <<< 52)
  if biased = 0x7ff then
    if fraction = 0 then .infinity negative else .nan
  else if biased = 0 then .finite negative fraction (-1074)
  else .finite negative ((1 <<< 52) + fraction) ((biased : Int) - 1075)

def ofFloat (x : Float) : Binary64 :=
  ofBits x.toBits.toNat

/-- Whether a double equals a whole number exactly. -/
def equalsInt (x : Binary64) (n : Int) : Bool :=
  match x with
  | .finite negative significand exponent =>
    let signed : Int := if negative then -(significand : Int) else significand
    signed * Nat.pow 2 exponent.toNat == n * Nat.pow 2 (-exponent).toNat
  | _ => false

/-- How a double compares to a whole number. One that stands for no number does not compare. -/
def compareInt? (x : Binary64) (n : Int) : Option Ordering :=
  match x with
  | .nan => none
  | .infinity negative => some (if negative then .lt else .gt)
  | .finite negative significand exponent =>
    let signed : Int := if negative then -(significand : Int) else significand
    some (compare (signed * Nat.pow 2 exponent.toNat) (n * Nat.pow 2 (-exponent).toNat))

end Binary64

/-- A quotient rounded to the nearest whole number, a tie to the even one. -/
def roundDiv (numerator denominator : Nat) : Nat :=
  let quotient := numerator / denominator
  let twice := 2 * (numerator % denominator)
  if twice < denominator then quotient
  else if denominator < twice then quotient + 1
  else quotient + quotient % 2

/-- Whether a fraction is at least a power of two. -/
def atLeastTwoPow (numerator denominator : Nat) (exponent : Int) : Bool :=
  denominator * Nat.pow 2 exponent.toNat ≤ numerator * Nat.pow 2 (-exponent).toNat

def infinityBits : Nat :=
  0x7ff <<< 52

/-- The bits of the double nearest to a fraction, a tie going to the even one. The fraction is
counted in units of the last place; a count that needs one more bit carries into the exponent
field by itself, and a carry out of the largest exponent is infinity. -/
def nearestBits (numerator denominator : Nat) : Nat :=
  if numerator = 0 then 0
  else
    let guess : Int := (Nat.log2 numerator : Int) - Nat.log2 denominator
    let magnitude := if atLeastTwoPow numerator denominator guess then guess else guess - 1
    let exponent := max (magnitude - 52) (-1074)
    let units :=
      roundDiv (numerator * Nat.pow 2 (-exponent).toNat) (denominator * Nat.pow 2 exponent.toNat)
    min (((exponent + 1074).toNat <<< 52) + units) infinityBits

/-- The double nearest to `digits * 10 ^ exponent`. Exponents far outside the range of doubles
are settled by their size, so that no huge power is computed. -/
def nearestFloat (negative : Bool) (digits : Nat) (exponent : Int) : Float :=
  let bits :=
    if digits = 0 then 0
    else if 400 < exponent then infinityBits
    else if exponent < -401 - (Nat.log2 digits : Int) then 0
    else nearestBits (digits * Nat.pow 10 exponent.toNat) (Nat.pow 10 (-exponent).toNat)
  Float.ofBits (UInt64.ofNat ((if negative then 1 <<< 63 else 0) + bits))

end LispReader.Decimal
