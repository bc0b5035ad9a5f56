import LispReader.Decimal.Binary64

/-!
Numerals: the shapes of written numbers, and their values. A whole number is a sign that may be
missing and ASCII digits; doubles have a fraction or an exponent besides. Shapes are tests on
texts, and values are defined for every text, so that each can be spoken of alone.
-/

namespace LispReader.Decimal

def isDigits (text : List Char) : Bool :=
  !text.isEmpty && text.all Char.isDigit

/-- Takes the sign off a text: whether it was a minus, and the rest. -/
def takeSign : List Char → Bool × List Char
  | '-' :: rest => (true, rest)
  | '+' :: rest => (false, rest)
  | text => (false, text)

def isInteger (text : List Char) : Bool :=
  isDigits (takeSign text).2

/-- The number that digits denote. Only digits are meaningful. -/
def digitsValue (digits : List Char) : Nat :=
  digits.foldl (fun value c => 10 * value + (c.toNat - '0'.toNat)) 0

/-- The number that an optional sign and digits denote. -/
def integerValue (text : List Char) : Int :=
  let (negative, digits) := takeSign text
  if negative then -(digitsValue digits : Int) else digitsValue digits

/-- Whole numbers longer than this are not converted, signs not counted. -/
def digitLimit : Nat := 4300

/-- A whole number that is not too long to be converted, into a text or out of one. -/
def IsShort (value : Int) : Prop :=
  (Nat.toDigits 10 value.natAbs).length ≤ digitLimit

instance (value : Int) : Decidable (IsShort value) :=
  inferInstanceAs (Decidable (_ ≤ _))

/-- The number that an optional sign and digits denote, or the number of digits if there are too
many of them. -/
def readInteger (text : List Char) : Except Nat Int :=
  let count := (takeSign text).2.length
  if digitLimit < count then .error count else .ok (integerValue text)

/-- What is said of a whole number that is not read for its length. -/
def tooManyDigits (count : Nat) : String :=
  s!"Exceeds the limit ({digitLimit} digits) for integer string conversion: " ++
    s!"value has {count} digits; use sys.set_int_max_str_digits() to increase the limit"

/-- What is said of a whole number that is not written for its length. -/
def tooLong : String :=
  s!"Exceeds the limit ({digitLimit} digits) for integer string conversion; " ++
    "use sys.set_int_max_str_digits() to increase the limit"

/-- A written double taken apart: sign, digits before and behind the point, exponent. -/
structure Parts where
  negative : Bool
  whole : List Char
  fraction : List Char
  exponent : List Char
  deriving Repr, DecidableEq

namespace Parts

/-- The double nearest to the number that was written. -/
def value (parts : Parts) : Float :=
  let exponent := integerValue parts.exponent - parts.fraction.length
  nearestFloat parts.negative (digitsValue (parts.whole ++ parts.fraction)) exponent

/-- Takes a text apart, if it is an optional sign, digits with an optional point and more digits
behind it, and an optional exponent. An exponent that is missing is empty. -/
def ofText? (text : List Char) : Option Parts :=
  let (negative, text) := takeSign text
  let (whole, text) := text.span Char.isDigit
  let (fraction, text) :=
    match text with
    | '.' :: rest => rest.span Char.isDigit
    | rest => ([], rest)
  if whole.isEmpty && fraction.isEmpty then none
  else
    match text with
    | [] => some ⟨negative, whole, fraction, []⟩
    | mark :: exponent =>
      if (mark = 'e' ∨ mark = 'E') ∧ isInteger exponent then
        some ⟨negative, whole, fraction, exponent⟩
      else none

end Parts

/-- The double that a text denotes, if it is a written double or whole number. -/
def readFloat? (text : List Char) : Option Float :=
  Parts.value <$> Parts.ofText? text

end LispReader.Decimal
