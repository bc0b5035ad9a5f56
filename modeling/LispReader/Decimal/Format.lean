import LispReader.Decimal.Shortest

/-!
The text of a double: its shortest digits, written out for numbers of a moderate size and with an
exponent for the others. The choices are in one record, `FloatFormat`.
-/

namespace LispReader.Decimal

/-- How doubles are written. -/
structure FloatFormat where
  /-- The least decimal exponent that is written out in places. -/
  leastPlain : Int
  /-- The least decimal exponent above it that is not. -/
  leastScientific : Int
  /-- The least number of digits of a written exponent. -/
  exponentWidth : Nat
  nan : String
  /-- The text for infinity; a minus sign stands before it if it is negative. -/
  infinity : String

/-- Zeros in front, up to a width. -/
def padZeros (width : Nat) (digits : List Char) : List Char :=
  List.replicate (width - digits.length) '0' ++ digits

namespace FloatFormat

/-- Digits with the point after the first `whole + 1` of them; at least one digit follows it. -/
def pointed (digits : List Char) (whole : Nat) : List Char :=
  let fraction := digits.drop (whole + 1)
  digits.take (whole + 1) ++ List.replicate (whole + 1 - digits.length) '0' ++
    '.' :: (if fraction.isEmpty then ['0'] else fraction)

/-- Digits whose first one counts `10 ^ exponent`, in places. -/
def plain (digits : List Char) (exponent : Int) : List Char :=
  if 0 ≤ exponent then pointed digits exponent.toNat
  else '0' :: '.' :: List.replicate (-exponent - 1).toNat '0' ++ digits

/-- Digits whose first one counts `10 ^ exponent`, with the exponent after them. -/
def scientific (format : FloatFormat) (digits : List Char) (exponent : Int) : List Char :=
  let fraction := digits.drop 1
  let power := padZeros format.exponentWidth (Nat.toDigits 10 exponent.natAbs)
  digits.take 1 ++ (if fraction.isEmpty then [] else '.' :: fraction) ++
    'e' :: (if exponent < 0 then '-' else '+') :: power

/-- A positive number given by its digits and the power of ten that the last one counts. -/
def magnitude (format : FloatFormat) (number : Nat × Int) : List Char :=
  let digits := Nat.toDigits 10 number.1
  let exponent := number.2 + digits.length - 1
  if format.leastPlain ≤ exponent ∧ exponent < format.leastScientific then plain digits exponent
  else format.scientific digits exponent

def text (format : FloatFormat) (x : Float) : String :=
  match Binary64.ofFloat x with
  | .nan => format.nan
  | .infinity negative => (if negative then "-" else "") ++ format.infinity
  | .finite negative significand exponent =>
    let digits :=
      if significand = 0 then ['0', '.', '0'] else format.magnitude (shortest significand exponent)
    String.ofList (if negative then '-' :: digits else digits)

/-- Numbers from `0.0001` up to sixteen digits before the point are written out in places, and an
exponent has two digits at least. -/
def standard : FloatFormat where
  leastPlain := -4
  leastScientific := 16
  exponentWidth := 2
  nan := "nan"
  infinity := "inf"

end FloatFormat

end LispReader.Decimal
