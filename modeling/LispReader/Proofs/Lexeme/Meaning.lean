import LispReader.Proofs.Decimal.Shape
import LispReader.Proofs.Lexeme.Open

/-!
Which rule gives a lexeme its meaning. The rules are tried in order, so a rule decides once those
in front of it are known to pass the text over. Numbers are recognised by their shapes, and the
other rules but the last one by the first character.
-/

namespace LispReader

open Decimal Lexeme

namespace Rule

/-- What a text has to be for a rule not to pass it over. -/
def Applies (text : List Char) : Rule → Prop
  | .comment => ∃ rest, text = ';' :: rest
  | .marker => text ∈ [['('], [')'], ['.'], ['n', 'i', 'l']]
  | .rational => RatioShape text
  | .float => FloatShape text
  | .integer => IntegerShape text
  | .string => ∃ tail, text = '"' :: tail
  | .functionQuote => ∃ behind, text = '#' :: '\'' :: behind
  | .quote => ∃ behind, text = '\'' :: behind
  | .symbol => isSymbol text = true

variable {text : List Char} {quoted : Unit → Except LexemeFault Form}

/-- A rule that does not apply leaves a text to the next one. -/
theorem attempt_of_not_applies {rule : Rule} (h : ¬ rule.Applies text) :
    rule.attempt text quoted = .ok none := by
  cases rule with
  | comment | string | functionQuote | quote =>
      simp only [attempt]
      split
      · exact absurd ⟨_, rfl⟩ h
      · rfl
  | marker =>
      simp only [attempt]
      split <;> simp_all [Applies]
  | rational => simp only [attempt, ratioParts?_eq_none_iff.mpr h]
  | float => simp only [attempt, floatParts?_eq_none_iff.mpr h]
  | integer => simp only [attempt, isInteger_iff, show ¬ IntegerShape text from h, if_false]
  | symbol => exact if_neg h

theorem firstOf_append {before after : List Rule} (h : ∀ rule ∈ before, ¬ rule.Applies text) :
    firstOf (before ++ after) text quoted = firstOf after text quoted := by
  induction before with
  | nil => rfl
  | cons rule before ih =>
      rw [List.cons_append, firstOf, attempt_of_not_applies (h rule (by simp))]
      exact ih fun other hOther => h other (by simp [hOther])

theorem firstOf_take {rule : Rule} {others : List Rule} {form : Form}
    (h : rule.attempt text quoted = .ok (some form)) :
    firstOf (rule :: others) text quoted = .ok form := by
  rw [firstOf, h]
  rfl

theorem firstOf_fail {rule : Rule} {others : List Rule} {fault : LexemeFault}
    (h : rule.attempt text quoted = .error fault) :
    firstOf (rule :: others) text quoted = .error fault := by
  rw [firstOf, h]
  rfl

end Rule

namespace Lexeme

/-- The first rule that applies gives a text its meaning. The empty text has none. -/
theorem exists_classify_eq_firstOf {text : List Char} {before after : List Rule} (hSome : text ≠ [])
    (hAll : Rule.all = before ++ after) (h : ∀ rule ∈ before, ¬ rule.Applies text) :
    ∃ quoted, classify text = Rule.firstOf after text quoted := by
  obtain ⟨c, rest, rfl⟩ := List.exists_cons_of_ne_nil hSome
  rw [classify, classifyBy.eq_def, hAll]
  exact ⟨_, Rule.firstOf_append h⟩

end Lexeme

namespace Decimal

/-- A character that a number may begin with. -/
def StartsNumber (c : Char) : Prop :=
  c.isDigit = true ∨ c = '+' ∨ c = '-'

theorem IntegerShape.exists_cons {text : List Char} (h : IntegerShape text) :
    ∃ c rest, text = c :: rest ∧ StartsNumber c := by
  obtain ⟨c, rest, rfl⟩ := List.exists_cons_of_ne_nil h.ne_nil
  exact ⟨c, rest, rfl, h.mem c (by simp)⟩

theorem RatioShape.exists_cons {text : List Char} (h : RatioShape text) :
    ∃ c rest, text = c :: rest ∧ StartsNumber c := by
  obtain ⟨numerator, denominator, hNumerator, -, rfl⟩ := h
  obtain ⟨c, rest, rfl, hStarts⟩ := hNumerator.exists_cons
  exact ⟨c, rest ++ '/' :: denominator, rfl, hStarts⟩

theorem FloatShape.exists_cons {text : List Char} (h : FloatShape text) :
    ∃ c rest, text = c :: rest ∧ StartsNumber c := by
  obtain ⟨whole, fraction, exponent, hWhole, -, -, rfl⟩ := h
  obtain ⟨c, rest, rfl, hStarts⟩ := hWhole.exists_cons
  exact ⟨c, _, rfl, hStarts⟩

/-- A text that begins with something else is no number. -/
theorem not_number_of_not_startsNumber {c : Char} (h : ¬ StartsNumber c) (rest : List Char) :
    ¬ IntegerShape (c :: rest) ∧ ¬ RatioShape (c :: rest) ∧ ¬ FloatShape (c :: rest) := by
  refine ⟨fun hShape => ?_, fun hShape => ?_, fun hShape => ?_⟩
  all_goals
    obtain ⟨d, tail, hText, hStarts⟩ := hShape.exists_cons
    obtain ⟨rfl, -⟩ := List.cons.inj hText
    exact h hStarts

end Decimal

namespace Lexeme

theorem not_applies_of_startsNumber {c : Char} (h : StartsNumber c) (rest : List Char) :
    ∀ rule ∈ [Rule.comment, .marker], ¬ rule.Applies (c :: rest) := by
  intro rule hRule hApplies
  have hChar : c = ';' ∨ c = '(' ∨ c = ')' ∨ c = '.' ∨ c = 'n' := by
    simp only [List.mem_cons, List.not_mem_nil, or_false] at hRule
    rcases hRule with rfl | rfl
    · obtain ⟨tail, hText⟩ := hApplies
      exact .inl (List.cons.inj hText).1
    · simp only [Rule.Applies, List.mem_cons, List.cons.injEq, List.not_mem_nil,
        or_false] at hApplies
      tauto
  rcases hChar with rfl | rfl | rfl | rfl | rfl <;> simp [StartsNumber] at h

/-- A whole number means what its digits denote, if that fits into 64 bits. -/
theorem classify_of_integerShape {text : List Char} (h : IntegerShape text) :
    classify text = (fun value => .integer (.int value)) <$> readWord text text := by
  obtain ⟨c, rest, rfl, hStarts⟩ := h.exists_cons
  have hPassed : ∀ rule ∈ [Rule.comment, .marker] ++ [.rational, .float],
      ¬ rule.Applies (c :: rest) := by
    intro rule hRule
    rcases List.mem_append.mp hRule with hRule | hRule
    · exact not_applies_of_startsNumber hStarts rest rule hRule
    · simp only [List.mem_cons, List.not_mem_nil, or_false] at hRule
      rcases hRule with rfl | rfl
      · exact fun hShape =>
          h.notMem rfl (by decide) (by decide) (RatioShape.slash_mem hShape)
      · exact fun hShape =>
          h.notMem rfl (by decide) (by decide) (FloatShape.point_mem hShape)
  obtain ⟨quoted, hClassify⟩ := exists_classify_eq_firstOf (by simp) rfl hPassed
  have hAttempt : Rule.integer.attempt (c :: rest) quoted =
      if isInteger (c :: rest) then
        (do let value ← readWord (c :: rest) (c :: rest); return some (.integer (.int value)))
      else .ok none := rfl
  rw [if_pos (isInteger_iff.mpr h)] at hAttempt
  rw [hClassify]
  cases hWord : readWord (c :: rest) (c :: rest) with
  | error fault =>
      rw [hWord] at hAttempt
      exact Rule.firstOf_fail hAttempt
  | ok value =>
      rw [hWord] at hAttempt
      exact Rule.firstOf_take hAttempt

/-- A ratio means the numbers on both sides of its slash, if both fit into 64 bits. The numerator
is looked at first. -/
theorem classify_of_ratio {numerator denominator : List Char} (hNumerator : IntegerShape numerator)
    (hDenominator : isDigits denominator = true) :
    classify (numerator ++ '/' :: denominator) = do
      let n ← readWord numerator (numerator ++ '/' :: denominator)
      let d ← readWord denominator (numerator ++ '/' :: denominator)
      return .rational (.int n) (.int d) := by
  have hParts : ratioParts? (numerator ++ '/' :: denominator) = some (numerator, denominator) :=
    ratioParts?_eq_some_iff.mpr ⟨hNumerator, hDenominator, rfl⟩
  have hShape : RatioShape (numerator ++ '/' :: denominator) :=
    ⟨numerator, denominator, hNumerator, hDenominator, rfl⟩
  obtain ⟨c, rest, hText, hStarts⟩ := hShape.exists_cons
  obtain ⟨quoted, hClassify⟩ := exists_classify_eq_firstOf (List.cons_ne_nil c rest) rfl
    (not_applies_of_startsNumber hStarts rest)
  rw [← hText] at hClassify
  rw [hClassify]
  cases hn : readWord numerator (numerator ++ '/' :: denominator) with
  | error fault =>
      exact Rule.firstOf_fail (by simp [Rule.attempt, hParts, hn, bind, Except.bind])
  | ok n =>
      cases hd : readWord denominator (numerator ++ '/' :: denominator) with
      | error fault =>
          exact Rule.firstOf_fail (by simp [Rule.attempt, hParts, hn, hd, bind, Except.bind])
      | ok d =>
          refine Rule.firstOf_take ?_
          simp only [Rule.attempt, hParts, hn, hd]
          rfl

/-- A double means the number nearest to what is written, if that number is finite. -/
theorem classify_of_float {text : List Char} {parts : Parts}
    (hParts : floatParts? text = some parts) :
    classify text =
      if parts.value.isFinite then .ok (.float (.float parts.value))
      else .error (.floatRange (String.ofList text)) := by
  have hShape : FloatShape text := floatShape_of_floatParts? hParts
  obtain ⟨c, rest, hText, hStarts⟩ := hShape.exists_cons
  have hPassed : ∀ rule ∈ [Rule.comment, .marker] ++ [.rational], ¬ rule.Applies text := by
    intro rule hRule
    rcases List.mem_append.mp hRule with hRule | hRule
    · rw [hText]
      exact not_applies_of_startsNumber hStarts rest rule hRule
    · obtain rfl := List.mem_singleton.mp hRule
      exact fun hRatio => hShape.slash_notMem (RatioShape.slash_mem hRatio)
  have hSome : text ≠ [] := by simp [hText]
  obtain ⟨quoted, hClassify⟩ := exists_classify_eq_firstOf hSome rfl hPassed
  rw [hClassify]
  split
  · next hFinite => exact Rule.firstOf_take (by simp [Rule.attempt, hParts, hFinite])
  · next hInfinite => exact Rule.firstOf_fail (by simp [Rule.attempt, hParts, hInfinite])

/-- The fault of a lexeme that is a string literal with a flaw. -/
def StringFlaw.fault (lexeme : String) : StringFlaw → LexemeFault
  | .unterminated => .unterminatedString lexeme
  | .unknownEscape c => .unknownEscape c lexeme
  | .afterString => .afterString lexeme

/-- A text that begins with a double quote means what is decoded behind it, or is at fault for the
flaw in it. -/
theorem classify_string_eq (tail : List Char) :
    classify ('"' :: tail) =
      match decodeString tail with
      | .ok chars => .ok (.string (.text (String.ofList chars)))
      | .error flaw => .error (flaw.fault (String.ofList ('"' :: tail))) := by
  obtain ⟨hInteger, hRatio, hFloat⟩ :=
    not_number_of_not_startsNumber (c := '"') (by simp [StartsNumber]) tail
  have hPassed : ∀ rule ∈ [Rule.comment, .marker, .rational, .float, .integer],
      ¬ rule.Applies ('"' :: tail) := by
    simp only [List.forall_mem_cons]
    exact ⟨by simp [Rule.Applies], by simp [Rule.Applies], hRatio, hFloat, hInteger, by simp⟩
  obtain ⟨quoted, hClassify⟩ := exists_classify_eq_firstOf (by simp) rfl hPassed
  rw [hClassify]
  cases hDecode : decodeString tail with
  | ok chars =>
      apply Rule.firstOf_take
      simp only [Rule.attempt, hDecode]
  | error flaw =>
      apply Rule.firstOf_fail
      cases flaw <;> simp only [Rule.attempt, hDecode, StringFlaw.fault]

/-- A string literal means what its escapes resolve to, and nothing if it has a flaw. -/
theorem classify_string_eq_ok_iff {tail : List Char} {form : Form} :
    classify ('"' :: tail) = .ok form ↔
      ∃ chars, decodeString tail = .ok chars ∧ form = .string (.text (String.ofList chars)) := by
  rw [classify_string_eq]
  cases decodeString tail <;> simp [eq_comm]

section Equations

variable {c : Char}

theorem decodeString_pair (c : Char) (rest : List Char) :
    decodeString ('\\' :: c :: rest) =
      match unescape? c with
      | none => .error (.unknownEscape c)
      | some d => (d :: ·) <$> decodeString rest := rfl

theorem decodeString_cons (h : c ≠ '\\') (hQuote : c ≠ '"') (rest : List Char) :
    decodeString (c :: rest) = (c :: ·) <$> decodeString rest := by
  rw [decodeString.eq_def]
  split <;> simp_all

theorem decodeString_pair_eq_ok_iff {rest chars : List Char} :
    decodeString ('\\' :: c :: rest) = .ok chars ↔
      ∃ d decoded, unescape? c = some d ∧ decodeString rest = .ok decoded ∧
        chars = d :: decoded := by
  rw [decodeString_pair]
  cases unescape? c <;> cases decodeString rest <;> simp [eq_comm]

theorem decodeString_cons_eq_ok_iff (h : c ≠ '\\') (hQuote : c ≠ '"') {rest chars : List Char} :
    decodeString (c :: rest) = .ok chars ↔
      ∃ decoded, decodeString rest = .ok decoded ∧ chars = c :: decoded := by
  rw [decodeString_cons h hQuote]
  cases decodeString rest <;> simp [eq_comm]

end Equations

/-- A string literal without a flaw has its closing quote. -/
theorem closesString_of_decodeString {tail chars : List Char}
    (h : decodeString tail = .ok chars) : closesString tail = true := by
  induction tail using escape_induction generalizing chars with
  | nil | lone => cases h
  | pair c rest ih =>
      obtain ⟨d, decoded, -, hRest, -⟩ := decodeString_pair_eq_ok_iff.mp h
      rw [closesString_pair]
      exact ih hRest
  | other c rest hBackslash ih =>
      by_cases hQuote : c = '"'
      · rw [hQuote]
        rfl
      · obtain ⟨decoded, hRest, -⟩ := (decodeString_cons_eq_ok_iff hBackslash hQuote).mp h
        rw [closesString_cons hBackslash hQuote]
        exact ih hRest

/-- A lexeme that has a meaning is no string without its closing quote. -/
theorem isOpenString_of_classify {text : List Char} {form : Form} (h : classify text = .ok form) :
    isOpenString text = false := by
  unfold isOpenString
  split
  · next tail =>
      obtain ⟨chars, hDecode, -⟩ := classify_string_eq_ok_iff.mp h
      rw [closesString_of_decodeString hDecode]
      rfl
  · rfl

/-- An atom that no other rule takes is a symbol. -/
theorem classify_of_symbol {c : Char} {rest : List Char} (hAtom : isAtom (c :: rest) = true)
    (hEnds : ∀ d ∈ c :: rest, endsAtom d = false) (hPoint : c ≠ '.')
    (hNil : c :: rest ≠ ['n', 'i', 'l']) (hInteger : ¬ IntegerShape (c :: rest))
    (hRatio : ¬ RatioShape (c :: rest)) (hFloat : ¬ FloatShape (c :: rest)) :
    classify (c :: rest) = .ok (.symbol (.text (String.ofList (c :: rest)))) := by
  obtain ⟨hMark, hOpen, hClose, hQuote, hString, hComment⟩ := isAtom_cons_eq_true_iff.mp hAtom
  have hMarker : ¬ Rule.marker.Applies (c :: rest) := by
    simp_all [Rule.Applies]
  have hFunction : ¬ Rule.functionQuote.Applies (c :: rest) := by
    rintro ⟨behind, hText⟩
    obtain ⟨rfl, hRest⟩ := List.cons.inj hText
    exact hMark rfl behind hRest
  have hPassed : ∀ rule ∈ [Rule.comment, .marker, .rational, .float, .integer, .string,
      .functionQuote, .quote], ¬ rule.Applies (c :: rest) := by
    simp only [List.forall_mem_cons]
    exact ⟨by simp [Rule.Applies, hComment], hMarker, hRatio, hFloat, hInteger,
      by simp [Rule.Applies, hString], hFunction, by simp [Rule.Applies, hQuote], by simp⟩
  obtain ⟨quoted, hClassify⟩ := exists_classify_eq_firstOf (by simp) rfl hPassed
  have hSymbol : isSymbol (c :: rest) = true := by
    simp only [isSymbol, Bool.and_eq_true, bne_iff_ne, List.all_eq_true, Bool.not_eq_true']
    exact ⟨⟨hPoint, hString⟩, hEnds⟩
  have hAttempt : Rule.symbol.attempt (c :: rest) quoted =
      if isSymbol (c :: rest) then .ok (some (.symbol (.text (String.ofList (c :: rest)))))
      else .ok none := rfl
  rw [if_pos hSymbol] at hAttempt
  rw [hClassify]
  exact Rule.firstOf_take hAttempt

end Lexeme

end LispReader
