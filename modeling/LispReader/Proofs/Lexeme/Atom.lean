import LispReader.Proofs.Lexeme.Ending
import LispReader.Proofs.Lexeme.Numeral
import LispReader.Proofs.Lexeme.Whole

/-!
What atoms mean. The scanner takes everything for an atom that is neither a mark nor a string nor a
comment, and lets a blank or a parenthesis into it only behind a backslash. Such a character keeps
the atom from being a symbol, and so does a point in front of it; apart from those atoms and from
numerals outside of 64 bits, every atom means a number, a symbol, the dot or `nil`.
-/

namespace LispReader

open Decimal Lexeme Text

namespace Decimal

/-- Nothing in a double ends an atom. -/
theorem FloatShape.endsAtom_eq {text : List Char} (h : FloatShape text) :
    ∀ c ∈ text, endsAtom c = false := by
  obtain ⟨whole, fraction, exponent, hWhole, hFraction, hExponent, rfl⟩ := h
  intro c hc
  have hParts : c ∈ whole ∨ c = '.' ∨ c ∈ fraction ∨ c ∈ exponent := by simpa using hc
  rcases hParts with hc | rfl | hc | hc
  · exact (wholeAtom_of_integerShape hWhole).not_endsAtom c hc
  · rfl
  · exact endsAtom_of_isDigit ((isDigits_iff.mp hFraction).2 c hc)
  · rcases hExponent with rfl | ⟨mark, power, hMark, hPower, rfl⟩
    · cases hc
    · rcases List.mem_cons.mp hc with rfl | hc
      · rcases hMark with rfl | rfl <;> rfl
      · exact (wholeAtom_of_integerShape hPower).not_endsAtom c hc

end Decimal

namespace Lexeme

variable {text : List Char}

/-- The characters that backslashes take along, when every backslash is taken together with the
character after it. -/
def partners : List Char → List Char
  | [] => []
  | ['\\'] => []
  | '\\' :: c :: rest => c :: partners rest
  | _ :: rest => partners rest

theorem partners_cons {c : Char} (h : c ≠ '\\') (rest : List Char) :
    partners (c :: rest) = partners rest := by
  rw [partners.eq_def]
  split <;> simp_all

theorem mem_of_mem_partners {c : Char} (h : c ∈ partners text) : c ∈ text := by
  induction text using escape_induction with
  | nil | lone => cases h
  | pair d rest ih =>
      rcases List.mem_cons.mp h with rfl | h
      · simp
      · simp [ih h]
  | other d rest hBackslash ih =>
      rw [partners_cons hBackslash] at h
      exact List.mem_cons_of_mem d (ih h)

/-- What would end an atom is taken along by a backslash wherever it stands in one. -/
theorem mem_partners_of_endsAtom (hWhole : atomLength text = text.length) {c : Char}
    (hMem : c ∈ text) (hEnds : endsAtom c = true) : c ∈ partners text := by
  have hOther : c ≠ '\\' := ne_backslash_of_endsAtom hEnds
  induction text using escape_induction with
  | nil => cases hMem
  | lone => exact absurd (List.mem_singleton.mp hMem) hOther
  | pair d rest ih =>
      rw [atomLength_pair] at hWhole
      show c ∈ d :: partners rest
      rcases List.mem_cons.mp ((List.mem_cons.mp hMem).resolve_left hOther) with rfl | hRest
      · exact List.mem_cons_self
      · exact List.mem_cons_of_mem d (ih (by simpa using hWhole) hRest)
  | other d rest hBackslash ih =>
      rw [atomLength_cons hBackslash] at hWhole
      rw [partners_cons hBackslash]
      split at hWhole
      · cases hWhole
      · next hGoesOn =>
          rcases List.mem_cons.mp hMem with rfl | hRest
          · exact absurd hEnds hGoesOn
          · exact ih (by simpa using hWhole) hRest

/-- What an atom means by its text, if it is not at fault. -/
inductive AtomMeans : List Char → Form → Prop where
  | dot : AtomMeans ['.'] .dot
  | nil : AtomMeans ['n', 'i', 'l'] .nil
  | integer {text : List Char} {number : Int} (numeral : Numeral text number) :
      AtomMeans text (.integer (.int number))
  | rational {text : List Char} {upper lower : Int} (ratio : Ratio text upper lower) :
      AtomMeans text (.rational (.int upper) (.int lower))
  | float {text : List Char} {parts : Parts} (taken : floatParts? text = some parts) :
      AtomMeans text (.float (.float parts.value))
  | symbol {text : List Char} (ne_dot : text ≠ ['.']) (ne_nil : text ≠ ['n', 'i', 'l'])
      (not_integer : ¬ IntegerShape text) (not_ratio : ¬ RatioShape text)
      (not_float : ¬ FloatShape text) : AtomMeans text (.symbol (.text (String.ofList text)))

/-- Why an atom is at fault. -/
inductive FaultyAtom (text : List Char) : Prop where
  | point (starts : text.head? = some '.') (more : text ≠ ['.'])
  /-- A backslash takes a blank or a parenthesis along. -/
  | separator {c : Char} (mem : c ∈ partners text) (ends : endsAtom c = true)
  | outOfRange (large : OutOfRange text)

theorem exists_atomMeans (text : List Char) : ∃ form, AtomMeans text form := by
  by_cases hDot : text = ['.']
  · rw [hDot]
    exact ⟨_, .dot⟩
  by_cases hNil : text = ['n', 'i', 'l']
  · rw [hNil]
    exact ⟨_, .nil⟩
  by_cases hInteger : IntegerShape text
  · exact ⟨_, .integer (numeral_iff.mpr ⟨hInteger, rfl⟩)⟩
  by_cases hRatio : RatioShape text
  · obtain ⟨numerator, denominator, hNumerator, hDenominator, hText⟩ := hRatio
    exact ⟨_, .rational (ratio_iff.mpr ⟨_, _, hNumerator, hDenominator, hText, rfl, rfl⟩)⟩
  by_cases hFloat : FloatShape text
  · obtain ⟨parts, hParts⟩ := floatParts?_of_floatShape hFloat
    exact ⟨_, .float hParts⟩
  exact ⟨_, .symbol hDot hNil hInteger hRatio hFloat⟩

theorem AtomMeans.kind_mem {form : Form} (h : AtomMeans text form) :
    form.kind ∈ [Token.Kind.dot, .nil, .integer, .rational, .float, .symbol] := by
  cases h <;> simp [Token.kind]

/-- A text that no rule takes is refused. -/
theorem refused_of_not_applies (hSome : text ≠ []) (h : ∀ rule : Rule, ¬ rule.Applies text) :
    Refused text := by
  obtain ⟨quoted, hClassify⟩ :=
    exists_classify_eq_firstOf hSome (List.append_nil Rule.all).symm fun rule _ => h rule
  exact ⟨_, _, hClassify, rfl, rfl, rfl⟩

/-- The rules for lexemes that begin with a mark of their own take no atom. -/
theorem not_applies_of_isAtom (hAtom : isAtom text = true) :
    ∀ rule ∈ [Rule.comment, .string, .functionQuote, .quote], ¬ rule.Applies text := by
  intro rule hRule hApplies
  simp only [List.mem_cons, List.not_mem_nil, or_false] at hRule
  rcases hRule with rfl | rfl | rfl | rfl <;> obtain ⟨rest, rfl⟩ := hApplies <;> cases hAtom

/-- An atom is refused if no rule for markers, numbers or symbols takes it. -/
theorem refused_of_isAtom (hAtom : isAtom text = true)
    (h : ∀ rule ∈ [Rule.marker, .rational, .float, .integer, .symbol], ¬ rule.Applies text) :
    Refused text := by
  apply refused_of_not_applies
  · rintro rfl
    cases hAtom
  · have hOther := not_applies_of_isAtom hAtom
    simp only [List.forall_mem_cons] at h hOther
    intro rule
    cases rule <;> tauto

/-- An atom with a point in front of it is refused, unless it is the point alone. -/
theorem refused_of_point (hAtom : isAtom text = true) (hStarts : text.head? = some '.')
    (hMore : text ≠ ['.']) : Refused text := by
  obtain ⟨rest, rfl⟩ := List.head?_eq_some_iff.mp hStarts
  obtain ⟨hInteger, hRatio, hFloat⟩ :=
    not_number_of_not_startsNumber (c := '.') (by simp [StartsNumber]) rest
  apply refused_of_isAtom hAtom
  simp only [List.forall_mem_cons]
  exact ⟨by simpa [Rule.Applies] using hMore, hRatio, hFloat, hInteger,
    by simp [Rule.Applies, isSymbol], List.forall_mem_nil _⟩

/-- An atom with a blank or a parenthesis in it is refused. -/
theorem refused_of_endsAtom (hAtom : isAtom text = true) {c : Char} (hMem : c ∈ text)
    (hEnds : endsAtom c = true) : Refused text := by
  have hContains : ¬ ∀ d ∈ text, endsAtom d = false := fun hNone => by
    rw [hNone c hMem] at hEnds
    cases hEnds
  apply refused_of_isAtom hAtom
  simp only [List.forall_mem_cons]
  refine ⟨fun hMarker => ?_, fun hRatio => hContains (wholeAtom_of_ratioShape hRatio).not_endsAtom,
    fun hFloat => hContains hFloat.endsAtom_eq,
    fun hInteger => hContains (wholeAtom_of_integerShape hInteger).not_endsAtom,
    fun hSymbol => ?_, List.forall_mem_nil _⟩
  · simp only [Rule.Applies, List.mem_cons, List.not_mem_nil, or_false] at hMarker
    rcases hMarker with rfl | rfl | rfl | rfl
    · cases hAtom
    · cases hAtom
    · exact hContains wholeAtom_point.not_endsAtom
    · exact hContains wholeAtom_nil.not_endsAtom
  · cases text with
    | nil => cases hAtom
    | cons d rest =>
        simp only [Rule.Applies, isSymbol, Bool.and_eq_true, List.all_eq_true,
          Bool.not_eq_true'] at hSymbol
        exact hContains hSymbol.2

theorem FaultyAtom.refused (h : FaultyAtom text) (hAtom : isAtom text = true)
    (hShort : ¬ Oversize text) : Refused text := by
  cases h with
  | point starts more => exact refused_of_point hAtom starts more
  | separator mem ends => exact refused_of_endsAtom hAtom (mem_of_mem_partners mem) ends
  | outOfRange large => exact refused_of_outOfRange large hShort

section Taken

variable (hAtom : isAtom text = true) (hWhole : atomLength text = text.length)
  (hShort : ¬ Oversize text)

include hAtom hWhole hShort

/-- An atom that is not at fault means what its text says. -/
theorem AtomMeans.classify_eq {form : Form} (h : AtomMeans text form)
    (hSound : ¬ FaultyAtom text) : classify text = .ok form := by
  have hRange : ¬ OutOfRange text := fun hLarge => hSound (.outOfRange hLarge)
  cases h with
  | dot => rfl
  | nil => rfl
  | @integer _ number numeral =>
      obtain ⟨hShape, rfl⟩ := numeral_iff.mp numeral
      have hWord : IsWord (integerValue text) := by
        by_contra hLarge
        exact hRange (.integer hShape hLarge)
      exact (classify_eq_integer_iff hShort).mpr ⟨_, numeral, hWord, rfl⟩
  | @rational _ upper lower ratio =>
      obtain ⟨numerator, denominator, hNumerator, hDenominator, rfl, rfl, rfl⟩ :=
        ratio_iff.mp ratio
      have hWords : IsWord (integerValue numerator) ∧ IsWord (integerValue denominator) := by
        by_contra hLarge
        exact hRange (.ratio hNumerator hDenominator (not_and_or.mp hLarge))
      exact (classify_eq_rational_iff hShort).mpr
        ⟨_, _, ratio, hWords.1, hWords.2, rfl, rfl⟩
  | @float _ parts taken =>
      have hFinite : parts.value.isFinite = true := by
        by_contra hLarge
        exact hRange (.float taken (by simpa using hLarge))
      rw [classify_of_float taken, if_pos hFinite]
  | symbol ne_dot ne_nil not_integer not_ratio not_float =>
      have hEnds : ∀ c ∈ text, endsAtom c = false := by
        intro c hMem
        by_contra hEnds
        rw [Bool.not_eq_false] at hEnds
        exact hSound (.separator (mem_partners_of_endsAtom hWhole hMem hEnds) hEnds)
      have hPoint : text.head? ≠ some '.' := fun hStarts => hSound (.point hStarts ne_dot)
      cases text with
      | nil => cases hAtom
      | cons c rest =>
          exact classify_of_symbol hAtom hEnds (by simpa using hPoint) ne_nil not_integer not_ratio
            not_float

theorem classify_atom_eq_ok_iff {form : Form} :
    classify text = .ok form ↔ ¬ FaultyAtom text ∧ AtomMeans text form := by
  constructor
  · intro hForm
    have hSound : ¬ FaultyAtom text := fun hFault =>
      (hFault.refused hAtom hShort).ne_ok form hForm
    -- the text says that the atom means something, which can only be what it is found to mean
    obtain ⟨other, hOther⟩ := exists_atomMeans text
    have hSame := hForm.symm.trans (hOther.classify_eq hAtom hWhole hShort hSound)
    rw [Except.ok.inj hSame]
    exact ⟨hSound, hOther⟩
  · rintro ⟨hSound, hForm⟩
    exact hForm.classify_eq hAtom hWhole hShort hSound

theorem classify_atom_eq_error_iff :
    (∃ fault, classify text = .error fault) ↔ FaultyAtom text := by
  constructor
  · rintro ⟨fault, hFault⟩
    by_contra hSound
    obtain ⟨form, hForm⟩ := exists_atomMeans text
    rw [hForm.classify_eq hAtom hWhole hShort hSound] at hFault
    cases hFault
  · intro h
    obtain ⟨fault, -, hFault, -⟩ := h.refused hAtom hShort
    exact ⟨fault, hFault⟩

end Taken

/-- The lexemes that are marks. -/
def marks : List (List Char) :=
  [['('], [')'], ['\''], ['#', '\'']]

/-- What stands in a text is an atom, taken whole, if it is neither a mark nor a string nor a
comment. -/
theorem isAtom_of_mem_scan {buffer : List Char} {span : Span} (hSpan : span ∈ scan buffer)
    (hMark : span.chars ∉ marks) (hString : span.chars.head? ≠ some '"')
    (hComment : span.chars.head? ≠ some ';') :
    isAtom span.chars = true ∧ atomLength span.chars = span.chars.length := by
  obtain ⟨-, -, -, -, hWhole, -⟩ := exists_of_mem_scan hSpan
  have hSome : span.chars ≠ [] := (partition_scan buffer).nonempty span hSpan
  generalize span.chars = text at *
  obtain ⟨c, rest, rfl⟩ := List.exists_cons_of_ne_nil hSome
  rcases lexeme_cases c rest with hAlone | ⟨tail, rfl, rfl⟩ | rfl | rfl | hAtom
  · rw [lexemeLength_mark hAlone] at hWhole
    obtain rfl : rest = [] := by simpa using hWhole
    rcases hAlone with rfl | rfl | rfl <;> simp [marks] at hMark
  · have hTwo : lexemeLength ('#' :: '\'' :: tail) = 2 := rfl
    rw [hTwo] at hWhole
    obtain rfl : tail = [] := by simpa using hWhole
    simp [marks] at hMark
  · exact absurd rfl hString
  · exact absurd rfl hComment
  · exact ⟨hAtom, by rwa [← lexemeLength_of_isAtom hAtom]⟩

end Lexeme

theorem Span.exists_classify_eq_error_iff (span : Span) :
    (∃ error, span.classify = .error error) ↔
      ∃ fault, Lexeme.classify span.chars = .error fault := by
  rw [Span.classify]
  cases Lexeme.classify span.chars <;> simp

/-- An atom of a text, with no more digits in it than are converted, means what its text says, and
is at fault for a point in front of it, a blank or a parenthesis that a backslash takes along, or a
number that does not fit, but for nothing else. It never means a comment, a string, a mark or a
cell. -/
theorem classify_atom_of_scan {text : List Char} {span : Span} (hSpan : span ∈ scan text)
    (hMark : span.chars ∉ marks) (hString : span.chars.head? ≠ some '"')
    (hComment : span.chars.head? ≠ some ';') (hShort : ¬ Oversize span.chars) :
    (∀ form, span.classify = .ok form →
      form.kind ∉ [Token.Kind.comment, .string, .listStart, .listEnd, .quotePrefix, .cons]) ∧
    ((∃ error, span.classify = .error error) ↔ FaultyAtom span.chars) ∧
    ∀ form, span.classify = .ok form ↔ ¬ FaultyAtom span.chars ∧ AtomMeans span.chars form := by
  obtain ⟨hAtom, hWhole⟩ := isAtom_of_mem_scan hSpan hMark hString hComment
  have hMeans (form : Form) :
      span.classify = .ok form ↔ ¬ FaultyAtom span.chars ∧ AtomMeans span.chars form :=
    Span.classify_eq_ok_iff.trans (classify_atom_eq_ok_iff hAtom hWhole hShort)
  have hFails : (∃ error, span.classify = .error error) ↔ FaultyAtom span.chars :=
    span.exists_classify_eq_error_iff.trans (classify_atom_eq_error_iff hAtom hWhole hShort)
  constructor
  · intro form hForm
    have hKind := ((hMeans form).mp hForm).2.kind_mem
    revert hKind
    cases form.kind <;> decide
  · exact ⟨hFails, hMeans⟩

/-- The atom here begins like a number, and its second backslash takes a parenthesis along; the
first one takes along nothing but a backslash. -/
theorem classify_atom_of_scan_escaped :
    let text := ['(', '1', '\\', '\\', ')', ' ', '1', '\\', '\\', '\\', '(', '2']
    let span : Span := ⟨6, 12, text⟩
    span ∈ scan text ∧ span.chars ∉ marks ∧ ¬ Oversize span.chars ∧
      ∃ error, span.classify = .error error := by
  intro text span
  have hSpan : span ∈ scan text := by decide +kernel
  have hMark : span.chars ∉ marks := by decide
  have hShort : ¬ Oversize span.chars := fun h => absurd h.digitLimit_lt_length (by decide)
  have hFault : FaultyAtom span.chars := @FaultyAtom.separator _ '(' (by decide) rfl
  have hAtom := classify_atom_of_scan hSpan hMark (by decide) (by decide) hShort
  exact ⟨hSpan, hMark, hShort, hAtom.2.1.mpr hFault⟩

end LispReader
