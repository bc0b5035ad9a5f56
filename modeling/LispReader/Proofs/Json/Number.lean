import LispReader.Json.Mark
import LispReader.Proofs.Decimal.Written

/-!
Numbers as JSON has them: an optional minus sign, digits without needless zeros in front, and
perhaps a fraction and an exponent. A text of this shape is one mark, whatever stands behind it
that does not go on with the number.
-/

namespace LispReader.Json

open LispReader.Decimal (isDigits isDigits_iff IsSign span_eq_iff)

/-- Nothing, or a minus sign. -/
def IsMinus (text : List Char) : Prop :=
  text = [] ∨ text = ['-']

/-- Digits without a needless zero in front. -/
def LeadingDigits (digits : List Char) : Prop :=
  isDigits digits = true ∧ digits.head? ≠ some '0'

/-- The digits before the point: a zero alone, or digits that do not begin with one. -/
def IsWhole (digits : List Char) : Prop :=
  digits = ['0'] ∨ LeadingDigits digits

/-- Nothing, or a point and digits. -/
def IsFraction (text : List Char) : Prop :=
  text = [] ∨ ∃ digits, isDigits digits = true ∧ text = '.' :: digits

/-- Nothing, or an exponent. -/
def IsExponent (text : List Char) : Prop :=
  text = [] ∨ ∃ sign digits, IsSign sign ∧ isDigits digits = true ∧ text = 'e' :: (sign ++ digits)

/-- A character that does not go on with a number. -/
def endsNumber (c : Char) : Bool :=
  !c.isDigit && c != '.' && c != 'e' && c != 'E'

/-- Whatever may stand behind a number. -/
def StopsNumber (rest : List Char) : Prop :=
  ∀ c ∈ rest.head?, endsNumber c = true

/-- A text that no digit begins. -/
def NoDigit (rest : List Char) : Prop :=
  ∀ c ∈ rest.head?, c.isDigit = false

theorem StopsNumber.noDigit {rest : List Char} (hStops : StopsNumber rest) : NoDigit rest := by
  intro c hc
  have hEnds := hStops c hc
  simp only [endsNumber, Bool.and_eq_true, Bool.not_eq_true'] at hEnds
  exact hEnds.1.1.1

theorem takeWhile_digits_append {digits rest : List Char} (hDigits : isDigits digits = true)
    (hRest : NoDigit rest) :
    (digits ++ rest).takeWhile Char.isDigit = digits ∧
      (digits ++ rest).dropWhile Char.isDigit = rest := by
  have hSpan := span_eq_iff.mpr ⟨rfl, (isDigits_iff.mp hDigits).2, hRest⟩
  rwa [List.span_eq_takeWhile_dropWhile, Prod.mk.injEq] at hSpan

theorem isMinus_ite (p : Prop) [Decidable p] : IsMinus (if p then ['-'] else []) := by
  split
  · exact .inr rfl
  · exact .inl rfl

theorem isEmpty_digits {digits : List Char} (hDigits : isDigits digits = true) :
    digits.isEmpty = false := by
  simpa using (isDigits_iff.mp hDigits).1

theorem IsWhole.isDigits {digits : List Char} (hWhole : IsWhole digits) :
    Decimal.isDigits digits = true := by
  obtain rfl | ⟨hDigits, -⟩ := hWhole
  · rfl
  · exact hDigits

theorem takeWhole?_append_of_isWhole {digits rest : List Char} (hWhole : IsWhole digits)
    (hRest : NoDigit rest) : takeWhole? (digits ++ rest) = some (digits, rest) := by
  obtain rfl | ⟨hDigits, hZero⟩ := hWhole
  · rfl
  · obtain ⟨hTake, hDrop⟩ := takeWhile_digits_append hDigits hRest
    unfold takeWhole?
    split
    · next behind hText =>
        cases digits with
        | nil => simp [Decimal.isDigits] at hDigits
        | cons c others =>
            obtain rfl : c = '0' := (List.cons.inj hText).1
            simp at hZero
    · simp only [hTake, hDrop, isEmpty_digits hDigits, Bool.false_eq_true, if_false]

theorem takeFraction_append_of_isFraction {fraction rest : List Char}
    (hFraction : IsFraction fraction) (hRest : NoDigit rest) (hPoint : rest.head? ≠ some '.') :
    takeFraction (fraction ++ rest) = (fraction, rest) := by
  obtain rfl | ⟨digits, hDigits, rfl⟩ := hFraction
  · unfold takeFraction
    split
    · simp_all
    · rfl
  · obtain ⟨hTake, hDrop⟩ := takeWhile_digits_append hDigits hRest
    simp only [List.cons_append, takeFraction, hTake, hDrop, isEmpty_digits hDigits,
      Bool.false_eq_true, if_false]

theorem takeSign_append_of_isSign {sign digits : List Char} (hSign : IsSign sign)
    (hDigits : isDigits digits = true) (rest : List Char) :
    takeSign (sign ++ (digits ++ rest)) = (sign, digits ++ rest) := by
  obtain rfl | rfl | rfl := hSign
  · obtain ⟨c, others, rfl⟩ := List.exists_cons_of_ne_nil (isDigits_iff.mp hDigits).1
    have hDigit := (isDigits_iff.mp hDigits).2 c List.mem_cons_self
    unfold takeSign
    split <;> simp_all
  · rfl
  · rfl

theorem takeExponent_append_of_isExponent {exponent rest : List Char}
    (hExponent : IsExponent exponent) (hRest : StopsNumber rest) :
    takeExponent (exponent ++ rest) = (exponent, rest) := by
  obtain rfl | ⟨sign, digits, hSign, hDigits, rfl⟩ := hExponent
  · cases rest with
    | nil => rfl
    | cons c others =>
        have hEnds := hRest c rfl
        simp only [endsNumber, Bool.and_eq_true, bne_iff_ne] at hEnds
        simp [takeExponent, hEnds.1.2, hEnds.2]
  · obtain ⟨hTake, hDrop⟩ := takeWhile_digits_append hDigits hRest.noDigit
    simp [takeExponent, takeSign_append_of_isSign hSign hDigits, hTake, hDrop,
      (isDigits_iff.mp hDigits).1]

theorem takeMinus_append_of_isDigits {minus digits : List Char}
    (hMinus : IsMinus minus) (hDigits : isDigits digits = true) (rest : List Char) :
    takeMinus (minus ++ (digits ++ rest)) = (minus, digits ++ rest) := by
  obtain rfl | rfl := hMinus
  · obtain ⟨c, others, rfl⟩ := List.exists_cons_of_ne_nil (isDigits_iff.mp hDigits).1
    have hDigit := (isDigits_iff.mp hDigits).2 c List.mem_cons_self
    unfold takeMinus
    split <;> simp_all
  · rfl

theorem noDigit_exponent_append {exponent rest : List Char} (hExponent : IsExponent exponent)
    (hRest : StopsNumber rest) : NoDigit (exponent ++ rest) := by
  obtain rfl | ⟨sign, digits, -, -, rfl⟩ := hExponent
  · exact hRest.noDigit
  · simp [NoDigit]

theorem head?_exponent_append {exponent rest : List Char} (hExponent : IsExponent exponent)
    (hRest : StopsNumber rest) : (exponent ++ rest).head? ≠ some '.' := by
  obtain rfl | ⟨sign, digits, -, -, rfl⟩ := hExponent
  · intro hPoint
    have hEnds := hRest '.' hPoint
    simp [endsNumber] at hEnds
  · simp

/-- A number that is written in parts is read in the same parts. -/
theorem number?_append {minus whole fraction exponent rest : List Char}
    (hMinus : IsMinus minus) (hWhole : IsWhole whole)
    (hFraction : IsFraction fraction) (hExponent : IsExponent exponent)
    (hRest : StopsNumber rest) :
    number? (minus ++ (whole ++ (fraction ++ (exponent ++ rest)))) =
      some (if fraction.isEmpty && exponent.isEmpty then .whole (minus ++ whole)
        else .real (minus ++ whole ++ fraction ++ exponent), rest) := by
  have hBehind := noDigit_exponent_append hExponent hRest
  have hPoint := head?_exponent_append hExponent hRest
  have hTail : NoDigit (fraction ++ (exponent ++ rest)) := by
    obtain rfl | ⟨digits, -, rfl⟩ := hFraction
    · exact hBehind
    · simp [NoDigit]
  unfold number?
  rw [takeMinus_append_of_isDigits hMinus hWhole.isDigits]
  simp only [takeWhole?_append_of_isWhole hWhole hTail,
    takeFraction_append_of_isFraction hFraction hBehind hPoint,
    takeExponent_append_of_isExponent hExponent hRest]
  split
  · next hNone =>
      rw [Bool.and_eq_true, List.isEmpty_iff, List.isEmpty_iff] at hNone
      simp [hNone.1, hNone.2]
  · rfl

/-- No fixed word begins as a number does. -/
theorem word?_eq_none {minus digits : List Char} (hMinus : IsMinus minus)
    (hDigits : isDigits digits = true) (rest : List Char) :
    word? (minus ++ (digits ++ rest)) = none := by
  obtain ⟨c, others, rfl⟩ := List.exists_cons_of_ne_nil (isDigits_iff.mp hDigits).1
  have hDigit := (isDigits_iff.mp hDigits).2 c List.mem_cons_self
  have hLetter : ∀ letter ∈ ['n', 't', 'f', 'N', 'I'], letter ≠ c := by
    rintro letter hLetter rfl
    simp only [List.mem_cons, List.not_mem_nil, or_false] at hLetter
    rcases hLetter with rfl | rfl | rfl | rfl | rfl <;> simp at hDigit
  simp only [List.forall_mem_cons] at hLetter
  obtain ⟨hN, hT, hF, hNaN, hInfinity, -⟩ := hLetter
  have hMinusSign : '-' ≠ c := by
    rintro rfl
    simp at hDigit
  obtain rfl | rfl := hMinus
  · simp [word?, words, hN, hT, hF, hNaN, hInfinity, hMinusSign]
  · simp [word?, words, hInfinity]

/-- What begins as a number does is a number or no mark at all. -/
theorem next?_eq_number? {minus digits : List Char} (hMinus : IsMinus minus)
    (hDigits : isDigits digits = true) (rest : List Char) :
    Mark.next? (minus ++ (digits ++ rest)) = number? (minus ++ (digits ++ rest)) := by
  have hWord := word?_eq_none hMinus hDigits rest
  have hLast : Mark.next? (minus ++ (digits ++ rest)) =
      (word? (minus ++ (digits ++ rest))).or (number? (minus ++ (digits ++ rest))) := by
    obtain rfl | rfl := hMinus
    · obtain ⟨c, others, rfl⟩ := List.exists_cons_of_ne_nil (isDigits_iff.mp hDigits).1
      have hDigit := (isDigits_iff.mp hDigits).2 c List.mem_cons_self
      unfold Mark.next?
      split <;> simp_all
    · rfl
  rw [hLast, hWord, Option.none_or]

theorem isWhole_toDigits (value : Nat) : IsWhole (Nat.toDigits 10 value) := by
  by_cases hZero : value = 0
  · subst hZero
    exact .inl rfl
  · exact .inr ⟨Decimal.isDigits_toDigits value, Decimal.head?_toDigits (by omega)⟩

/-- A written whole number is one mark. -/
theorem next?_written (value : Int) {rest : List Char} (hRest : StopsNumber rest) :
    Mark.next? (Decimal.written value ++ rest) = some (.whole (Decimal.written value), rest) := by
  have hWhole := isWhole_toDigits value.natAbs
  have hMinus := isMinus_ite (value < 0)
  have hNumber := number?_append hMinus hWhole (.inl rfl) (.inl rfl) hRest
  rw [Decimal.written_eq, List.append_assoc, next?_eq_number? hMinus hWhole.isDigits]
  exact hNumber

/-- A number with a fraction or an exponent. -/
def IsReal (text : List Char) : Prop :=
  ∃ minus whole fraction exponent, IsMinus minus ∧ IsWhole whole ∧
    IsFraction fraction ∧ IsExponent exponent ∧ (fraction ≠ [] ∨ exponent ≠ []) ∧
    text = minus ++ whole ++ fraction ++ exponent

theorem next?_of_isReal {text rest : List Char} (hReal : IsReal text) (hRest : StopsNumber rest) :
    Mark.next? (text ++ rest) = some (.real text, rest) := by
  obtain ⟨minus, whole, fraction, exponent, hMinus, hWhole, hFraction, hExponent, hSome, rfl⟩ :=
    hReal
  have hParts : (fraction.isEmpty && exponent.isEmpty) = false := by
    rw [Bool.and_eq_false_iff, List.isEmpty_eq_false_iff, List.isEmpty_eq_false_iff]
    exact hSome
  have hNumber := number?_append hMinus hWhole hFraction hExponent hRest
  simp only [hParts, Bool.false_eq_true, if_false] at hNumber
  simp only [List.append_assoc] at hNumber ⊢
  rw [next?_eq_number? hMinus hWhole.isDigits]
  exact hNumber

end LispReader.Json
