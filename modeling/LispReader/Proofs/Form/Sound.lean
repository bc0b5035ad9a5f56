import LispReader.Proofs.Form.Print
import LispReader.Proofs.Lexeme.Outcome
import LispReader.Proofs.Reader.Grammar

/-!
What reading a text returns. A form is sound if no structural token stands anywhere in it, its whole
numbers fit into 64 bits, its doubles are finite and its symbols are texts that no other rule would
take. Every lexeme means a sound form or a structural token, a derivation puts sound forms together
to a sound form, and so the forms of a text are sound.
-/

namespace LispReader

open Decimal Lexeme Text
open LispReader.Derivation (words values depths)

/-- A text that only the rule for symbols takes, with nothing in it that ends an atom. -/
structure SymbolText (text : List Char) : Prop where
  ne_nil : text ≠ []
  not_separator : ∀ c ∈ text, isBlank c = false ∧ c ≠ '(' ∧ c ≠ ')'
  not_mark : ∀ c ∈ text.head?, c ≠ '.' ∧ c ≠ '"' ∧ c ≠ ';' ∧ c ≠ '\''
  not_functionQuote : ¬ ['#', '\''] <+: text
  ne_nilMarker : text ≠ ['n', 'i', 'l']
  not_integer : ¬ IntegerShape text
  not_ratio : ¬ RatioShape text
  not_float : ¬ FloatShape text

namespace Form

/-- The forms that a reader may return. -/
inductive Sound : Form → Prop where
  | integer {value : Int} (least : leastWord ≤ value) (greatest : value ≤ greatestWord) :
      Sound (.integer (.int value))
  | float {value : Float} (finite : value.isFinite = true) : Sound (.float (.float value))
  | rational {numerator denominator : Int} (least : leastWord ≤ numerator)
      (greatest : numerator ≤ greatestWord) (least' : 0 ≤ denominator)
      (greatest' : denominator ≤ greatestWord) :
      Sound (.rational (.int numerator) (.int denominator))
  | string (text : String) : Sound (.string (.text text))
  | symbol {text : String} (symbol : SymbolText text.toList) : Sound (.symbol (.text text))
  | nil : Sound .nil
  | emptyList : Sound .emptyList
  | cons {head tail : Form} (first : Sound head) (rest : Sound tail) : Sound (.cons head tail)

theorem tailNesting_le_nesting (form : Form) : tailNesting form ≤ nesting form := by
  cases form with
  | cons head tail => exact Nat.le_succ _
  | _ => exact Nat.zero_le _

/-- The items of a chain and its tail bound how deep it nests. -/
theorem tailNesting_chain_le {items : List Form} {tail : Form} {bound : Nat}
    (hItems : ∀ item ∈ items, nesting item ≤ bound) (hTail : tailNesting tail ≤ bound) :
    tailNesting (.chain items tail) ≤ bound := by
  induction items with
  | nil => exact hTail
  | cons item items ih =>
      have hRest := ih fun other hOther => hItems other (by simp [hOther])
      exact max_le (hItems item (by simp)) hRest

theorem sound_chain {items : List Form} {tail : Form} (hItems : ∀ item ∈ items, Sound item)
    (hTail : Sound tail) : Sound (.chain items tail) := by
  induction items with
  | nil => exact hTail
  | cons item items ih =>
      exact .cons (hItems item (by simp)) (ih fun other hOther => hItems other (by simp [hOther]))

end Form

namespace Lexeme

theorem integerValue_nonneg_of_isDigits {digits : List Char} (h : isDigits digits = true) :
    0 ≤ integerValue digits := by
  rw [integerValue, takeSign_of_isDigits h]
  exact Int.natCast_nonneg _

end Lexeme

theorem symbolText_of_comesFirst {text : List Char}
    (hComes : Rule.ComesFirst Rule.all .symbol text) (h : isSymbol text = true) :
    SymbolText text := by
  have hNot : ∀ rule ∈ [Rule.comment, .marker, .rational, .float, .integer, .string,
      .functionQuote, .quote], ¬ rule.Applies text := hComes
  simp only [List.forall_mem_cons] at hNot
  obtain ⟨hComment, hMarker, hRatio, hFloat, hInteger, hString, hFunction, hQuote, -⟩ := hNot
  cases text with
  | nil => cases h
  | cons c rest =>
      simp only [isSymbol, Bool.and_eq_true, bne_iff_ne, List.all_eq_true, Bool.not_eq_true'] at h
      refine ⟨by simp, ?_, ?_, ?_, ?_, hInteger, hRatio, hFloat⟩
      · intro d hd
        have hEnds := h.2 d hd
        simp only [endsAtom, Bool.or_eq_false_iff, beq_eq_false_iff_ne] at hEnds
        exact ⟨hEnds.1.1, hEnds.1.2, hEnds.2⟩
      · intro d hd
        obtain rfl := Option.some.inj hd
        refine ⟨h.1.1, h.1.2, ?_, ?_⟩
        · rintro rfl
          exact hComment ⟨rest, rfl⟩
        · rintro rfl
          exact hQuote ⟨rest, rfl⟩
      · rintro ⟨behind, hText⟩
        exact hFunction ⟨behind, hText.symm⟩
      · intro hText
        exact hMarker (by simp [Rule.Applies, hText])

/-- What a lexeme of a text may mean: a sound form that does not nest, a quote mark with a symbol
for its operator, or another structural token. -/
structure Admissible (token : Form) : Prop where
  sound : token.isStructural = false → Form.Sound token ∧ Form.nesting token = 0
  operator : ∀ operator, token = .quotePrefix operator → Form.Sound (.symbol operator)

namespace Admissible

theorem of_atom {token : Form} (hSound : Form.Sound token) (hNesting : Form.nesting token = 0) :
    Admissible token := by
  refine ⟨fun _ => ⟨hSound, hNesting⟩, ?_⟩
  rintro operator rfl
  cases hSound

theorem of_structural {token : Form} (h : token.isStructural = true)
    (hQuote : ∀ operator, token ≠ .quotePrefix operator) : Admissible token := by
  refine ⟨fun hAtom => ?_, fun operator hToken => absurd hToken (hQuote operator)⟩
  rw [h] at hAtom
  cases hAtom

theorem quotePrefix {name : String} (h : SymbolText name.toList) :
    Admissible (.quotePrefix (.text name)) := by
  refine ⟨fun hAtom => ?_, fun operator hToken => ?_⟩
  · cases hAtom
  · cases hToken
    exact .symbol h

end Admissible

/-- A text of small letters is a symbol, unless it is the marker. -/
theorem symbolText_of_letters {text : List Char} (hSome : text ≠ [])
    (hLetters : ∀ c ∈ text, 97 ≤ c.toNat ∧ c.toNat ≤ 122) (hNil : text ≠ ['n', 'i', 'l']) :
    SymbolText text := by
  obtain ⟨c, rest, rfl⟩ := List.exists_cons_of_ne_nil hSome
  have hStart : ¬ StartsNumber c := by
    have hCode := hLetters c (by simp)
    rintro (hDigit | rfl | rfl)
    · have hDigitCode : 48 ≤ c.toNat ∧ c.toNat ≤ 57 := by
        simpa [Char.isDigit, UInt32.le_iff_toNat_le] using hDigit
      omega
    · simp at hCode
    · simp at hCode
  obtain ⟨hInteger, hRatio, hFloat⟩ := not_number_of_not_startsNumber hStart rest
  have hNe : ∀ d ∈ c :: rest, ∀ e : Char, ¬ (97 ≤ e.toNat ∧ e.toNat ≤ 122) → d ≠ e := by
    rintro d hd e hOther rfl
    exact hOther (hLetters d hd)
  refine ⟨by simp, ?_, ?_, ?_, hNil, hInteger, hRatio, hFloat⟩
  · intro d hd
    refine ⟨?_, hNe d hd _ (by decide), hNe d hd _ (by decide)⟩
    have hCode := hLetters d hd
    simp only [isBlank, Bool.or_eq_false_iff, Bool.and_eq_false_iff, decide_eq_false_iff_not,
      beq_eq_false_iff_ne]
    omega
  · intro d hd
    obtain rfl := Option.some.inj hd
    exact ⟨hNe _ (by simp) _ (by decide), hNe _ (by simp) _ (by decide),
      hNe _ (by simp) _ (by decide), hNe _ (by simp) _ (by decide)⟩
  · rintro ⟨behind, hText⟩
    exact hNe c (by simp) '#' (by decide) (List.cons.inj hText).1.symm

/-- Every lexeme means something admissible. -/
theorem admissible_of_classify {text : List Char} {token : Form} (hLone : LoneMark text)
    (h : classify text = .ok token) : Admissible token := by
  obtain ⟨rule, quoted, hComes, hAttempt⟩ := exists_of_classify_eq_ok h
  cases Rule.gives_of_attempt hAttempt with
  | comment | listStart | listEnd | dot => exact .of_structural rfl (by simp)
  | nil => exact .of_atom .nil rfl
  | rational hParts hn hd =>
      obtain ⟨-, hDigits, -⟩ := ratioParts?_eq_some_iff.mp hParts
      obtain ⟨-, -, hLeast, hGreatest⟩ := readWord_eq_ok_iff.mp hn
      obtain ⟨-, hValue, -, hGreatest'⟩ := readWord_eq_ok_iff.mp hd
      have hNonneg := hValue ▸ integerValue_nonneg_of_isDigits hDigits
      exact .of_atom (.rational hLeast hGreatest hNonneg hGreatest') rfl
  | float _ hFinite => exact .of_atom (.float hFinite) rfl
  | integer _ hWord =>
      obtain ⟨-, -, hLeast, hGreatest⟩ := readWord_eq_ok_iff.mp hWord
      exact .of_atom (.integer hLeast hGreatest) rfl
  | string => exact .of_atom (.string _) rfl
  | functionQuote hStarts hApplied =>
      obtain rfl := hLone _ (.inr hStarts)
      cases hApplied
      exact .quotePrefix (symbolText_of_letters (by decide) (by simp) (by decide))
  | quote hStarts hApplied =>
      obtain rfl := hLone _ (.inl hStarts)
      cases hApplied
      exact .quotePrefix (symbolText_of_letters (by decide) (by simp) (by decide))
  | symbol hSymbol =>
      refine .of_atom (.symbol ?_) rfl
      rw [String.toList_ofList]
      exact symbolText_of_comesFirst hComes hSymbol

theorem Classified.exists_span {spans : List Span} {tokens : List Form}
    (h : Classified spans tokens) {token : Form} (hToken : token ∈ tokens) :
    ∃ span ∈ spans, span.classify = .ok token := by
  obtain ⟨before, after, rfl⟩ := List.append_of_mem hToken
  obtain ⟨upper, lower, -, hLower, rfl⟩ := Classified.append_right_iff.mp h
  obtain ⟨span, others, hSpan, -, rfl⟩ := Classified.cons_right_iff.mp hLower
  exact ⟨span, by simp, hSpan⟩

theorem Classified.admissible {text : List Char} {tokens : List Form}
    (h : Classified (scan text) tokens) : ∀ token ∈ tokens, Admissible token := by
  intro token hToken
  obtain ⟨span, hSpan, hMeaning⟩ := h.exists_span hToken
  have hLexeme : span.chars ∈ lexemes text := List.mem_map_of_mem hSpan
  exact admissible_of_classify (loneMark_of_mem_lexemes hLexeme)
    (Span.classify_eq_ok_iff.mp hMeaning)

namespace Derivation

/-- What derivations are written with is written in one of them. -/
theorem word_subset_words {derivation : Derivation} {derivations : List Derivation}
    (h : derivation ∈ derivations) : derivation.word ⊆ words derivations := by
  induction derivations with
  | nil => cases h
  | cons first others ih =>
      intro token hToken
      rw [words]
      rcases List.mem_cons.mp h with rfl | hOthers
      · exact List.mem_append_left _ hToken
      · exact List.mem_append_right _ (ih hOthers hToken)

theorem depth_le_depths {derivation : Derivation} {derivations : List Derivation}
    (h : derivation ∈ derivations) : derivation.depth ≤ depths derivations := by
  induction derivations with
  | nil => cases h
  | cons first others ih =>
      rw [depths]
      rcases List.mem_cons.mp h with rfl | hOthers
      · exact le_max_left _ _
      · exact (ih hOthers).trans (le_max_right _ _)

theorem values_eq_map (derivations : List Derivation) :
    values derivations = derivations.map value := by
  induction derivations with
  | nil => rfl
  | cons derivation others ih => rw [values, ih, List.map_cons]

/-- A derivation that is written with admissible tokens stands for a sound form, which nests no
deeper than the derivation does. -/
theorem sound_value (derivation : Derivation)
    (h : ∀ token ∈ derivation.word, Admissible token) :
    Form.Sound derivation.value ∧ Form.nesting derivation.value ≤ derivation.depth := by
  induction derivation using induct with
  | atom token isAtom =>
      obtain ⟨hSound, hNesting⟩ := (h token (by simp [word])).sound isAtom
      exact ⟨hSound, Nat.le_of_eq hNesting⟩
  | list items ih =>
      have hItems : ∀ item ∈ values items,
          Form.Sound item ∧ Form.nesting item ≤ depths items := by
        rw [values_eq_map]
        intro form hForm
        obtain ⟨item, hItem, rfl⟩ := List.mem_map.mp hForm
        obtain ⟨hSound, hNesting⟩ := ih item hItem fun token hToken =>
          h token (by simp [word, word_subset_words hItem hToken])
        exact ⟨hSound, hNesting.trans (depth_le_depths hItem)⟩
      refine ⟨Form.sound_chain (fun item hItem => (hItems item hItem).1) .emptyList, ?_⟩
      cases items with
      | nil => exact Nat.le_refl 1
      | cons first others =>
          have hFirst := (hItems _ (List.mem_cons_self ..)).2
          have hEnd : Form.tailNesting (.emptyList : Form) ≤ depths (first :: others) :=
            Nat.zero_le _
          have hOthers := Form.tailNesting_chain_le
            (fun item hItem => (hItems item (List.mem_cons_of_mem _ hItem)).2) hEnd
          exact Nat.succ_le_succ (max_le hFirst hOthers)
  | dotted first others tail ihItems ihTail =>
      rw [word_dotted] at h
      obtain ⟨hSoundTail, hNestingTail⟩ := ihTail fun token hToken => h token (by simp [hToken])
      have hItems : ∀ item ∈ values (first :: others),
          Form.Sound item ∧ Form.nesting item ≤ depths (first :: others) := by
        rw [values_eq_map]
        intro form hForm
        obtain ⟨item, hItem, rfl⟩ := List.mem_map.mp hForm
        obtain ⟨hSound, hNesting⟩ := ihItems item hItem fun token hToken =>
          h token (by simp [word_subset_words hItem hToken])
        exact ⟨hSound, hNesting.trans (depth_le_depths hItem)⟩
      rw [value_dotted, depth_dotted]
      refine ⟨Form.sound_chain (fun item hItem => (hItems item hItem).1) hSoundTail, ?_⟩
      have hChain := Form.tailNesting_chain_le
        (fun item hItem => ((hItems item hItem).2.trans (le_max_left _ tail.depth)))
        ((Form.tailNesting_le_nesting _).trans (hNestingTail.trans (le_max_right _ _)))
      exact Nat.succ_le_succ hChain
  | quoted operator form ih =>
      obtain ⟨hSound, hNesting⟩ := ih fun token hToken => h token (by simp [word, hToken])
      have hOperator : Form.Sound (.symbol operator) :=
        (h (.quotePrefix operator) (by simp [word])).operator operator rfl
      refine ⟨.cons hOperator (.cons hSound .emptyList), ?_⟩
      have hForm : Form.nesting (.quoteForm operator form.value) =
          max 0 (max (Form.nesting form.value) 0) + 1 := rfl
      rw [value, depth, hForm]
      omega

end Derivation

/-- Every form that reading a text returns is sound and nests no deeper than is allowed, unless it
is a comment outside of all lists, and there are comments only where they are to be kept. -/
theorem readText_sound {text : List Char} {keepComments : Bool} {maxDepth : Nat}
    {forms : List Form} (h : readText text keepComments maxDepth = .ok forms) :
    ∀ form ∈ forms,
      (keepComments = true ∧ form.isComment = true) ∨
        (Form.Sound form ∧ Form.nesting form ≤ maxDepth) := by
  obtain ⟨assembly, hRun, hClosed, rfl⟩ := readText_eq_ok_iff.mp h
  obtain ⟨tokens, hTokens⟩ := exists_classified_of_run hRun
  have hBase : Nesting.Allows { base := 0, limit := maxDepth } 0 := by simp [Nesting.Allows]
  obtain ⟨derivations, hWords, hDepths, hValues⟩ :=
    exists_derivations_of_run hBase hTokens hRun hClosed
  intro form hForm
  obtain ⟨hMem, hKept⟩ := List.mem_filter.mp hForm
  cases hComment : form.isComment with
  | true => exact .inl ⟨by simpa [hComment] using hKept, rfl⟩
  | false =>
      have hValue : form ∈ values derivations := by
        have hPlain : form ∈ withoutComments assembly.forms := by
          simpa [withoutComments, hComment] using hMem
        rw [hValues] at hPlain
        exact List.mem_reverse.mp hPlain
      rw [Derivation.values_eq_map] at hValue
      obtain ⟨derivation, hDerivation, rfl⟩ := List.mem_map.mp hValue
      have hAdmissible : ∀ token ∈ derivation.word, Admissible token := by
        intro token hToken
        have hWord : token ∈ withoutComments tokens :=
          hWords ▸ Derivation.word_subset_words hDerivation hToken
        exact hTokens.admissible token (List.mem_of_mem_filter hWord)
      obtain ⟨hSound, hNesting⟩ := derivation.sound_value hAdmissible
      refine .inr ⟨hSound, hNesting.trans ((Derivation.depth_le_depths hDerivation).trans ?_)⟩
      simpa [Nesting.Allows] using hDepths

theorem readText_sound_of_dotted_quote :
    ∃ forms, readText [';', 'c', '\n', '(', 'a', ' ', '\'', '(', '1', '/', '2', ' ', '.', ' ', '(',
        ')', ')', ')', ' ', '-', '1', '.', '5'] true (4 : Nat) = .ok forms ∧ forms.length = 3 ∧
      ∀ form ∈ forms, (true = true ∧ form.isComment = true) ∨
        (Form.Sound form ∧ Form.nesting form ≤ 4) := by
  generalize hText : [';', 'c', '\n', '(', 'a', ' ', '\'', '(', '1', '/', '2', ' ', '.', ' ', '(',
    ')', ')', ')', ' ', '-', '1', '.', '5'] = text
  have hScan : scan text = [⟨0, 2, text⟩, ⟨3, 4, text⟩, ⟨4, 5, text⟩, ⟨6, 7, text⟩, ⟨7, 8, text⟩,
      ⟨8, 11, text⟩, ⟨12, 13, text⟩, ⟨14, 15, text⟩, ⟨15, 16, text⟩, ⟨16, 17, text⟩,
      ⟨17, 18, text⟩, ⟨19, 23, text⟩] := by
    subst hText
    decide +kernel
  have hRead : readText text true (4 : Nat) = .ok [.comment (.int 1) (.text "c"),
      .cons (.symbol (.text "a")) (.cons (.quoteForm (.text "quote")
        (.cons (.rational (.int 1) (.int 2)) .emptyList)) .emptyList),
      .float (.float (Parts.value ⟨true, ['1'], ['5'], []⟩))] := by
    rw [readText_eq_conclude, hScan]
    subst hText
    rfl
  exact ⟨_, hRead, rfl, readText_sound hRead⟩

end LispReader
