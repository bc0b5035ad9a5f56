/-!
Code units of UTF-16. A character outside of the basic plane is a pair of surrogates; every other
character is one unit. Joining the units of a text gives the text again.
-/

namespace LispReader.Text

def isHighSurrogate (unit : Nat) : Bool :=
  0xD800 ≤ unit && unit < 0xDC00

def isLowSurrogate (unit : Nat) : Bool :=
  0xDC00 ≤ unit && unit < 0xE000

/-- The units of a character. -/
def units16 (c : Char) : List Nat :=
  if c.toNat < 0x10000 then [c.toNat]
  else [0xD800 + (c.toNat - 0x10000) / 0x400, 0xDC00 + (c.toNat - 0x10000) % 0x400]

/-- Stands for a surrogate without its partner. -/
def replacement : Char := '\uFFFD'

/-- The character of a number, which must not be a surrogate. -/
def charOfUnit (unit : Nat) : Char :=
  if h : unit.isValidChar then Char.ofNatAux unit h else replacement

/-- The characters of units, pairs joined. A number past the units stands for its character. -/
def joinUnits : List Nat → List Char
  | [] => []
  | [unit] => [charOfUnit unit]
  | first :: second :: rest =>
    if isHighSurrogate first && isLowSurrogate second then
      charOfUnit (0x10000 + (first - 0xD800) * 0x400 + (second - 0xDC00)) :: joinUnits rest
    else charOfUnit first :: joinUnits (second :: rest)

theorem charOfUnit_toNat (c : Char) : charOfUnit c.toNat = c := by
  have h : c.toNat.isValidChar := c.valid
  rw [charOfUnit, dif_pos h]
  exact Char.ext (UInt32.toNat_inj.1 UInt32.toNat_ofNatLT)

/-- Joining takes a character off the front together with all of its units. -/
@[simp]
theorem joinUnits_units16_append (c : Char) (rest : List Nat) :
    joinUnits (units16 c ++ rest) = c :: joinUnits rest := by
  have hValid : c.toNat < 0xD800 ∨ 0xDFFF < c.toNat ∧ c.toNat < 0x110000 := c.valid
  by_cases h : c.toNat < 0x10000
  · have hHigh : isHighSurrogate c.toNat = false := by
      simp only [isHighSurrogate, Bool.and_eq_false_iff, decide_eq_false_iff_not]
      omega
    cases rest <;> simp [units16, h, joinUnits, hHigh, charOfUnit_toNat]
  · have hHigh : isHighSurrogate (0xD800 + (c.toNat - 0x10000) / 0x400) = true := by
      simp only [isHighSurrogate, Bool.and_eq_true, decide_eq_true_eq]
      omega
    have hLow : isLowSurrogate (0xDC00 + (c.toNat - 0x10000) % 0x400) = true := by
      simp only [isLowSurrogate, Bool.and_eq_true, decide_eq_true_eq]
      omega
    have hJoin : 0x10000 + (0xD800 + (c.toNat - 0x10000) / 0x400 - 0xD800) * 0x400 +
        (0xDC00 + (c.toNat - 0x10000) % 0x400 - 0xDC00) = c.toNat := by
      omega
    simp only [units16, h, if_false, List.cons_append, List.nil_append, joinUnits, hHigh, hLow,
      Bool.and_true, if_true, hJoin, charOfUnit_toNat]

end LispReader.Text
