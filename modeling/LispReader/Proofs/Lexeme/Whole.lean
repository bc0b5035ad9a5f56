import LispReader.Proofs.Lexeme.Meaning

/-!
Texts that are one lexeme wherever they are written. Atoms need a separator behind them, strings
bring their own end along. What they are one lexeme of has a meaning of its own: a number, a symbol
or the string that was escaped.
-/

namespace LispReader.Lexeme

open Decimal Text

/-- A text that is one atom in front of whatever stops an atom. -/
structure WholeAtom (text : List Char) : Prop where
  atom : isAtom text = true
  not_endsAtom : ∀ c ∈ text, endsAtom c = false
  closed : endsInBackslash text = false

theorem atomLength_eq_length {text : List Char} (h : ∀ c ∈ text, endsAtom c = false) :
    atomLength text = text.length := by
  induction text using escape_induction with
  | nil | lone => rfl
  | pair c text ih =>
      rw [atomLength_pair, ih fun d hd => h d (by simp [hd])]
      rfl
  | other c text hBackslash ih =>
      rw [atomLength_cons hBackslash, h c (by simp), ih fun d hd => h d (by simp [hd])]
      rfl

theorem endsInBackslash_of_notMem {text : List Char} (h : '\\' ∉ text) :
    endsInBackslash text = false := by
  induction text using escape_induction with
  | nil => rfl
  | lone | pair => simp at h
  | other c text hBackslash ih =>
      rw [endsInBackslash_cons hBackslash]
      exact ih fun hMem => h (by simp [hMem])

theorem WholeAtom.lexemes_append {text rest : List Char} (h : WholeAtom text)
    (hStops : StopsAtom rest) : lexemes (text ++ rest) = text :: lexemes rest := by
  have hLength : lexemeLength (text ++ rest) = text.length := by
    have hWhole : atomLength text = text.length := atomLength_eq_length h.not_endsAtom
    have hClosed : endsInBackslash (text.take (atomLength text)) = false := by
      rw [hWhole, List.take_length]
      exact h.closed
    rw [lexemeLength_of_isAtom (isAtom_append h.atom hStops), atomLength_append hStops hClosed,
      hWhole]
  cases text with
  | nil => cases h.atom
  | cons c text =>
      have hBlank : isBlank c = false := by
        have hEnds := h.not_endsAtom c (by simp)
        simp only [endsAtom, Bool.or_eq_false_iff] at hEnds
        exact hEnds.1.1
      rw [List.cons_append] at hLength ⊢
      rw [lexemes_cons hBlank, hLength, ← List.cons_append, List.take_left, List.drop_left]

theorem wholeAtom_point : WholeAtom ['.'] where
  atom := rfl
  not_endsAtom := by simp [endsAtom, isBlank]
  closed := rfl

theorem wholeAtom_nil : WholeAtom ['n', 'i', 'l'] where
  atom := rfl
  not_endsAtom := by simp [endsAtom, isBlank]
  closed := rfl

theorem endsAtom_of_isDigit {c : Char} (h : c.isDigit = true) : endsAtom c = false := by
  have hCode : 48 ≤ c.toNat ∧ c.toNat ≤ 57 := by
    simpa [Char.isDigit, UInt32.le_iff_toNat_le] using h
  have hBlank : isBlank c = false := by
    simp only [isBlank, Bool.or_eq_false_iff, Bool.and_eq_false_iff, decide_eq_false_iff_not,
      beq_eq_false_iff_ne]
    omega
  have hOpen : c ≠ '(' := by
    rintro rfl
    cases h
  have hClose : c ≠ ')' := by
    rintro rfl
    cases h
  simp [endsAtom, hBlank, hOpen, hClose]

/-- What whole numbers and ratios are made of. -/
def NumberChar (c : Char) : Prop :=
  StartsNumber c ∨ c = '/'

theorem NumberChar.endsAtom_eq {c : Char} (h : NumberChar c) : endsAtom c = false := by
  rcases h with (h | rfl | rfl) | rfl
  · exact endsAtom_of_isDigit h
  all_goals rfl

theorem NumberChar.ne {c d : Char} (h : NumberChar c) (hOther : ¬ NumberChar d) : c ≠ d := by
  rintro rfl
  exact hOther h

/-- A text made like a number is one atom. -/
theorem wholeAtom_of_numberChar {text : List Char} (hSome : text ≠ [])
    (h : ∀ c ∈ text, NumberChar c) : WholeAtom text where
  atom := by
    obtain ⟨c, rest, rfl⟩ := List.exists_cons_of_ne_nil hSome
    have hStart : NumberChar c := h c (by simp)
    rw [isAtom_cons_eq_true_iff]
    refine ⟨fun hMark => absurd hMark (hStart.ne ?_), hStart.ne ?_, hStart.ne ?_, hStart.ne ?_,
      hStart.ne ?_, hStart.ne ?_⟩
    all_goals simp [NumberChar, StartsNumber]
  not_endsAtom c hc := (h c hc).endsAtom_eq
  closed := endsInBackslash_of_notMem fun hMem =>
    (h '\\' hMem).ne (by simp [NumberChar, StartsNumber]) rfl

theorem wholeAtom_of_integerShape {text : List Char} (h : IntegerShape text) : WholeAtom text :=
  wholeAtom_of_numberChar h.ne_nil fun c hc => .inl (h.mem c hc)

theorem wholeAtom_of_ratioShape {text : List Char} (h : RatioShape text) : WholeAtom text := by
  obtain ⟨numerator, denominator, hNumerator, hDenominator, rfl⟩ := h
  refine wholeAtom_of_numberChar (by simp) ?_
  intro c hc
  rcases List.mem_append.mp hc with hc | hc
  · exact .inl (hNumerator.mem c hc)
  · rcases List.mem_cons.mp hc with rfl | hc
    · exact .inr rfl
    · exact .inl (.inl ((isDigits_iff.mp hDenominator).2 c hc))

/-- A symbol that no other rule takes, and that is no more than one lexeme wherever it is written:
it has neither blanks nor parentheses, and no backslash takes in what follows it. -/
structure PlainSymbol (text : List Char) : Prop where
  ne_nil : text ≠ []
  not_separator : ∀ c ∈ text, isBlank c = false ∧ c ≠ '(' ∧ c ≠ ')'
  not_mark : ∀ c ∈ text.head?, c ≠ '.' ∧ c ≠ '"' ∧ c ≠ ';' ∧ c ≠ '\''
  not_functionQuote : ¬ ['#', '\''] <+: text
  ne_marker : text ≠ ['n', 'i', 'l']
  not_integer : ¬ IntegerShape text
  not_ratio : ¬ RatioShape text
  not_float : ¬ FloatShape text
  closed : endsInBackslash text = false

theorem PlainSymbol.wholeAtom {text : List Char} (h : PlainSymbol text) : WholeAtom text where
  atom := by
    obtain ⟨c, rest, rfl⟩ := List.exists_cons_of_ne_nil h.ne_nil
    obtain ⟨-, hOpen, hClose⟩ := h.not_separator c (by simp)
    obtain ⟨-, hString, hComment, hQuote⟩ := h.not_mark c rfl
    rw [isAtom_cons_eq_true_iff]
    refine ⟨?_, hOpen, hClose, hQuote, hString, hComment⟩
    rintro rfl tail rfl
    exact h.not_functionQuote ⟨tail, rfl⟩
  not_endsAtom c hc := by
    obtain ⟨hBlank, hOpen, hClose⟩ := h.not_separator c hc
    simp [endsAtom, hBlank, hOpen, hClose]
  closed := h.closed

theorem PlainSymbol.classify_eq {text : List Char} (h : PlainSymbol text) :
    classify text = .ok (.symbol (.text (String.ofList text))) := by
  have hWhole : WholeAtom text := h.wholeAtom
  obtain ⟨c, rest, rfl⟩ := List.exists_cons_of_ne_nil h.ne_nil
  exact classify_of_symbol hWhole.atom hWhole.not_endsAtom (h.not_mark c rfl).1 h.ne_marker
    h.not_integer h.not_ratio h.not_float

/-- A text with a backslash in front of every backslash and every double quote. -/
def escaped (text : List Char) : List Char :=
  text.flatMap fun c => if c = '\\' ∨ c = '"' then ['\\', c] else [c]

theorem escaped_cons (c : Char) (text : List Char) :
    escaped (c :: text) = (if c = '\\' ∨ c = '"' then ['\\', c] else [c]) ++ escaped text := rfl

/-- An escaped text ends where its closing quote stands, and not before. -/
theorem stringTailLength_escaped (text rest : List Char) :
    stringTailLength (escaped text ++ '"' :: rest) = (escaped text).length + 1 := by
  induction text with
  | nil => rfl
  | cons c text ih =>
      rw [escaped_cons, List.append_assoc]
      split
      · show stringTailLength ('\\' :: c :: (escaped text ++ '"' :: rest)) = _
        rw [stringTailLength_pair, ih]
        simp
      · next hPlain =>
          show stringTailLength (c :: (escaped text ++ '"' :: rest)) = _
          rw [not_or] at hPlain
          rw [stringTailLength_cons hPlain.1 hPlain.2, ih]
          simp

theorem decodeString_escaped (text : List Char) :
    decodeString (escaped text ++ ['"']) = .ok text := by
  induction text with
  | nil => rfl
  | cons c text ih =>
      rw [escaped_cons, List.append_assoc]
      split
      · next hEscape =>
          show decodeString ('\\' :: c :: (escaped text ++ ['"'])) = _
          rw [decodeString_pair, ih]
          rcases hEscape with rfl | rfl <;> rfl
      · next hPlain =>
          show decodeString (c :: (escaped text ++ ['"'])) = _
          rw [not_or] at hPlain
          rw [decodeString_cons hPlain.1 hPlain.2, ih]
          rfl

/-- A string is one lexeme, whatever comes behind it. -/
theorem lexemes_string_append (text rest : List Char) :
    lexemes ('"' :: (escaped text ++ ['"']) ++ rest) =
      ('"' :: (escaped text ++ ['"'])) :: lexemes rest := by
  have hLength : lexemeLength ('"' :: (escaped text ++ ['"'] ++ rest)) =
      ('"' :: (escaped text ++ ['"'])).length := by
    rw [List.append_assoc, lexemeLength_string]
    simp [stringTailLength_escaped]
  have hText : '"' :: (escaped text ++ ['"']) ++ rest =
      '"' :: (escaped text ++ ['"'] ++ rest) := rfl
  rw [hText, lexemes_cons rfl, hLength, ← hText, List.take_left, List.drop_left]

theorem classify_string (text : List Char) :
    classify ('"' :: (escaped text ++ ['"'])) = .ok (.string (.text (String.ofList text))) :=
  classify_string_eq_ok_iff.mpr ⟨text, decodeString_escaped text, rfl⟩

end LispReader.Lexeme
