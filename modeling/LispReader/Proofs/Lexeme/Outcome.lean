import LispReader.Proofs.Lexeme.Meaning

/-!
Where the meaning of a lexeme comes from. The rule that decides is the first one that applies, so
whatever a lexeme means, or is at fault for, one rule has found alone, and none in front of it
applies. A lexeme of a text has nothing behind a quote mark.
-/

namespace LispReader

open Decimal Lexeme Text

namespace Rule

variable {text : List Char} {quoted : Unit → Except LexemeFault Form}

/-- A rule passes a text over if it does not apply, and only then. -/
theorem attempt_eq_none_iff {rule : Rule} :
    rule.attempt text quoted = .ok none ↔ ¬ rule.Applies text := by
  refine ⟨fun h hApplies => ?_, attempt_of_not_applies⟩
  cases rule with
  | comment =>
      obtain ⟨rest, rfl⟩ := hApplies
      cases h
  | marker =>
      simp only [Applies, List.mem_cons, List.not_mem_nil, or_false] at hApplies
      rcases hApplies with rfl | rfl | rfl | rfl <;> cases h
  | rational =>
      obtain ⟨numerator, denominator, hShape⟩ := hApplies
      rw [attempt, ratioParts?_eq_some_iff.mpr hShape] at h
      cases hn : readWord numerator text <;> cases hd : readWord denominator text <;>
        simp [hn, hd, bind, Except.bind, pure, Except.pure] at h
  | float =>
      obtain ⟨parts, hParts⟩ := floatParts?_of_floatShape hApplies
      simp only [attempt, hParts] at h
      split at h <;> cases h
  | integer =>
      simp only [attempt, isInteger_iff.mpr hApplies, if_true] at h
      cases hWord : readWord text text <;>
        simp [hWord, bind, Except.bind, pure, Except.pure] at h
  | string =>
      obtain ⟨tail, rfl⟩ := hApplies
      simp only [attempt] at h
      split at h <;> cases h
  | functionQuote | quote =>
      obtain ⟨behind, rfl⟩ := hApplies
      simp only [attempt] at h
      generalize applyQuote _ _ _ _ = outcome at h
      cases outcome <;> cases h
  | symbol =>
      have hSymbol : isSymbol text = true := hApplies
      rw [attempt, if_pos hSymbol] at h
      cases h

/-- What a rule gives for a text that it takes. -/
inductive Gives (text : List Char) (quoted : Unit → Except LexemeFault Form) :
    Rule → Form → Prop where
  | comment {rest : List Char} (starts : text = ';' :: rest) :
      Gives text quoted .comment (.comment (.int (text.takeWhile fun c => c == ';').length)
        (.text (String.ofList (firstLine
          (text.drop (text.takeWhile fun c => c == ';').length)))))
  | listStart (marker : text = ['(']) : Gives text quoted .marker .listStart
  | listEnd (marker : text = [')']) : Gives text quoted .marker .listEnd
  | dot (marker : text = ['.']) : Gives text quoted .marker .dot
  | nil (marker : text = ['n', 'i', 'l']) : Gives text quoted .marker .nil
  | rational {numerator denominator : List Char} {n d : Int}
      (parts : ratioParts? text = some (numerator, denominator))
      (first : readWord numerator text = .ok n) (second : readWord denominator text = .ok d) :
      Gives text quoted .rational (.rational (.int n) (.int d))
  | float {parts : Parts} (taken : floatParts? text = some parts)
      (finite : parts.value.isFinite = true) :
      Gives text quoted .float (.float (.float parts.value))
  | integer {value : Int} (shape : isInteger text = true) (read : readWord text text = .ok value) :
      Gives text quoted .integer (.integer (.int value))
  | string {tail chars : List Char} (starts : text = '"' :: tail)
      (decoded : decodeString tail = .ok chars) :
      Gives text quoted .string (.string (.text (String.ofList chars)))
  | functionQuote {behind : List Char} {form : Form} (starts : text = '#' :: '\'' :: behind)
      (applied : applyQuote "function" text behind quoted = .ok form) :
      Gives text quoted .functionQuote form
  | quote {behind : List Char} {form : Form} (starts : text = '\'' :: behind)
      (applied : applyQuote "quote" text behind quoted = .ok form) : Gives text quoted .quote form
  | symbol (shape : isSymbol text = true) :
      Gives text quoted .symbol (.symbol (.text (String.ofList text)))

theorem gives_of_attempt {rule : Rule} {form : Form}
    (h : rule.attempt text quoted = .ok (some form)) : Gives text quoted rule form := by
  cases rule with
  | comment =>
      simp only [attempt] at h
      split at h <;> cases h
      exact .comment rfl
  | marker =>
      simp only [attempt] at h
      split at h <;> cases h
      · exact .listStart rfl
      · exact .listEnd rfl
      · exact .dot rfl
      · exact .nil rfl
  | rational =>
      simp only [attempt] at h
      split at h
      · next numerator denominator hParts =>
          cases hn : readWord numerator text with
          | error fault => simp [hn, bind, Except.bind] at h
          | ok n =>
              cases hd : readWord denominator text with
              | error fault => simp [hn, hd, bind, Except.bind] at h
              | ok d =>
                  simp only [hn, hd, bind, Except.bind, pure, Except.pure] at h
                  cases h
                  exact .rational hParts hn hd
      · cases h
  | float =>
      simp only [attempt] at h
      split at h
      · next parts hParts =>
          split at h <;> cases h
          exact .float hParts ‹_›
      · cases h
  | integer =>
      simp only [attempt] at h
      split at h
      · next hShape =>
          cases hWord : readWord text text with
          | error fault => simp [hWord, bind, Except.bind] at h
          | ok value =>
              simp only [hWord, bind, Except.bind, pure, Except.pure] at h
              cases h
              exact .integer hShape hWord
      · cases h
  | string =>
      simp only [attempt] at h
      split at h
      · next tail =>
          split at h <;> cases h
          exact .string rfl ‹_›
      · cases h
  | functionQuote =>
      simp only [attempt] at h
      split at h
      · next behind =>
          cases hApplied : applyQuote "function" _ behind quoted with
          | error fault =>
              rw [hApplied] at h
              cases h
          | ok applied =>
              rw [hApplied] at h
              cases h
              exact .functionQuote rfl hApplied
      · cases h
  | quote =>
      simp only [attempt] at h
      split at h
      · next behind =>
          cases hApplied : applyQuote "quote" _ behind quoted with
          | error fault =>
              rw [hApplied] at h
              cases h
          | ok applied =>
              rw [hApplied] at h
              cases h
              exact .quote rfl hApplied
      · cases h
  | symbol =>
      simp only [attempt] at h
      split at h
      · next hShape =>
          cases h
          exact .symbol hShape
      · cases h

/-- What a rule blames in a text that it takes. -/
inductive Blames (text : List Char) (quoted : Unit → Except LexemeFault Form) :
    Rule → LexemeFault → Prop where
  | rational {numerator denominator part : List Char} {fault : LexemeFault}
      (parts : ratioParts? text = some (numerator, denominator))
      (isPart : part = numerator ∨ part = denominator) (read : readWord part text = .error fault) :
      Blames text quoted .rational fault
  | float {parts : Parts} (taken : floatParts? text = some parts)
      (infinite : parts.value.isFinite = false) :
      Blames text quoted .float (.floatRange (String.ofList text))
  | integer {fault : LexemeFault} (shape : isInteger text = true)
      (read : readWord text text = .error fault) : Blames text quoted .integer fault
  | string {tail : List Char} {flaw : StringFlaw} (starts : text = '"' :: tail)
      (decoded : decodeString tail = .error flaw) :
      Blames text quoted .string (flaw.fault (String.ofList text))
  | functionQuote {behind : List Char} {fault : LexemeFault} (starts : text = '#' :: '\'' :: behind)
      (applied : applyQuote "function" text behind quoted = .error fault) :
      Blames text quoted .functionQuote fault
  | quote {behind : List Char} {fault : LexemeFault} (starts : text = '\'' :: behind)
      (applied : applyQuote "quote" text behind quoted = .error fault) :
      Blames text quoted .quote fault

theorem blames_of_attempt {rule : Rule} {fault : LexemeFault}
    (h : rule.attempt text quoted = .error fault) : Blames text quoted rule fault := by
  cases rule with
  | comment | marker | symbol =>
      simp only [attempt] at h
      split at h <;> cases h
  | rational =>
      simp only [attempt] at h
      split at h
      · next numerator denominator hParts =>
          cases hn : readWord numerator text with
          | error other =>
              simp only [hn, bind, Except.bind] at h
              cases h
              exact .rational hParts (.inl rfl) hn
          | ok n =>
              cases hd : readWord denominator text with
              | error other =>
                  simp only [hn, hd, bind, Except.bind] at h
                  cases h
                  exact .rational hParts (.inr rfl) hd
              | ok d => simp [hn, hd, bind, Except.bind, pure, Except.pure] at h
      · cases h
  | float =>
      simp only [attempt] at h
      split at h
      · next parts hParts =>
          split at h <;> cases h
          exact .float hParts (by simp_all)
      · cases h
  | integer =>
      simp only [attempt] at h
      split at h
      · next hShape =>
          cases hWord : readWord text text with
          | error other =>
              simp only [hWord, bind, Except.bind] at h
              cases h
              exact .integer hShape hWord
          | ok value => simp [hWord, bind, Except.bind, pure, Except.pure] at h
      · cases h
  | string =>
      simp only [attempt] at h
      split at h
      · next tail => split at h <;> cases h <;> exact .string rfl ‹_›
      · cases h
  | functionQuote =>
      simp only [attempt] at h
      split at h
      · next behind =>
          cases hApplied : applyQuote "function" _ behind quoted with
          | error other =>
              rw [hApplied] at h
              cases h
              exact .functionQuote rfl hApplied
          | ok applied =>
              rw [hApplied] at h
              cases h
      · cases h
  | quote =>
      simp only [attempt] at h
      split at h
      · next behind =>
          cases hApplied : applyQuote "quote" _ behind quoted with
          | error other =>
              rw [hApplied] at h
              cases h
              exact .quote rfl hApplied
          | ok applied =>
              rw [hApplied] at h
              cases h
      · cases h

/-- No rule in front of a rule applies. -/
def ComesFirst (rules : List Rule) (rule : Rule) (text : List Char) : Prop :=
  ∀ other ∈ rules.takeWhile (· ≠ rule), ¬ other.Applies text

theorem comesFirst_head (rule : Rule) (others : List Rule) (text : List Char) :
    ComesFirst (rule :: others) rule text := by
  simp [ComesFirst]

theorem ComesFirst.cons {first rule : Rule} {others : List Rule}
    (hFirst : ¬ first.Applies text) (h : ComesFirst others rule text) :
    ComesFirst (first :: others) rule text := by
  intro other hOther
  rw [List.takeWhile_cons] at hOther
  split at hOther
  · rcases List.mem_cons.mp hOther with rfl | hOther
    · exact hFirst
    · exact h other hOther
  · cases hOther

/-- A meaning is found by a rule alone. -/
theorem exists_of_firstOf_eq_ok {rules : List Rule} {form : Form}
    (h : firstOf rules text quoted = .ok form) :
    ∃ rule, ComesFirst rules rule text ∧ rule.attempt text quoted = .ok (some form) := by
  induction rules with
  | nil => cases h
  | cons first others ih =>
      cases hAttempt : first.attempt text quoted with
      | error fault =>
          rw [firstOf_fail hAttempt] at h
          cases h
      | ok found =>
          rw [firstOf, hAttempt] at h
          cases found with
          | some other =>
              cases h
              exact ⟨first, comesFirst_head first others text, hAttempt⟩
          | none =>
              obtain ⟨rule, hComes, hRule⟩ := ih h
              exact ⟨rule, hComes.cons (attempt_eq_none_iff.mp hAttempt), hRule⟩

/-- A fault is found by a rule alone, or lies in there being no rule for the text. -/
theorem exists_of_firstOf_eq_error {rules : List Rule} {fault : LexemeFault}
    (h : firstOf rules text quoted = .error fault) :
    (∃ rule, ComesFirst rules rule text ∧ rule.attempt text quoted = .error fault) ∨
      fault = .unmatched (String.ofList text) := by
  induction rules with
  | nil =>
      cases h
      exact .inr rfl
  | cons first others ih =>
      cases hAttempt : first.attempt text quoted with
      | error other =>
          rw [firstOf_fail hAttempt] at h
          cases h
          exact .inl ⟨first, comesFirst_head first others text, hAttempt⟩
      | ok found =>
          rw [firstOf, hAttempt] at h
          cases found with
          | some form => cases h
          | none =>
              rcases ih h with ⟨rule, hComes, hRule⟩ | hNone
              · exact .inl ⟨rule, hComes.cons (attempt_eq_none_iff.mp hAttempt), hRule⟩
              · exact .inr hNone

end Rule

namespace Lexeme

variable {text : List Char}

theorem exists_of_classify_eq_ok {form : Form} (h : classify text = .ok form) :
    ∃ rule quoted, Rule.ComesFirst Rule.all rule text ∧
      rule.attempt text quoted = .ok (some form) := by
  have hSome : text ≠ [] := by
    rintro rfl
    cases h
  obtain ⟨quoted, hClassify⟩ :=
    exists_classify_eq_firstOf hSome (List.nil_append Rule.all).symm (by simp)
  rw [hClassify] at h
  obtain ⟨rule, hComes, hAttempt⟩ := Rule.exists_of_firstOf_eq_ok h
  exact ⟨rule, quoted, hComes, hAttempt⟩

/-- A quote mark gives a mark that waits, or the form that it makes of another one. -/
theorem cases_of_applyQuote {operator : String} {behind : List Char} {form : Form}
    {quoted : Unit → Except LexemeFault Form}
    (h : applyQuote operator text behind quoted = .ok form) :
    form = .quotePrefix (.text operator) ∨
      ∃ inner, quoted () = .ok inner ∧ inner.isStructural = false ∧
        form = .quoteForm (.text operator) inner := by
  unfold applyQuote at h
  split at h
  · cases h
    exact .inl rfl
  · cases hQuoted : quoted () with
    | error fault =>
        rw [hQuoted] at h
        cases h
    | ok inner =>
        cases hInner : inner.isStructural <;>
          simp only [hQuoted, hInner, bind, Except.bind, if_true, Bool.false_eq_true, if_false] at h
        · cases h
          exact .inr ⟨inner, rfl, hInner, rfl⟩
        · cases h

/-- Only an opening parenthesis opens a list. -/
theorem classify_eq_listStart_iff : classify text = .ok .listStart ↔ text = ['('] := by
  refine ⟨fun h => ?_, fun h => h ▸ rfl⟩
  obtain ⟨rule, quoted, -, hAttempt⟩ := exists_of_classify_eq_ok h
  cases Rule.gives_of_attempt hAttempt with
  | listStart marker => exact marker
  | functionQuote _ applied | quote _ applied =>
      rcases cases_of_applyQuote applied with hForm | ⟨inner, -, -, hForm⟩ <;> cases hForm

/-- Only a closing parenthesis ends a list. -/
theorem classify_eq_listEnd_iff : classify text = .ok .listEnd ↔ text = [')'] := by
  refine ⟨fun h => ?_, fun h => h ▸ rfl⟩
  obtain ⟨rule, quoted, -, hAttempt⟩ := exists_of_classify_eq_ok h
  cases Rule.gives_of_attempt hAttempt with
  | listEnd marker => exact marker
  | functionQuote _ applied | quote _ applied =>
      rcases cases_of_applyQuote applied with hForm | ⟨inner, -, -, hForm⟩ <;> cases hForm

/-- What a text is at fault for: there is nothing of it, or no rule for it, or the rule for it
finds the fault. -/
theorem exists_of_classify_eq_error {fault : LexemeFault} (h : classify text = .error fault) :
    (∃ rule quoted, Rule.ComesFirst Rule.all rule text ∧
      rule.attempt text quoted = .error fault) ∨
        fault = .unmatched (String.ofList text) ∨ fault = .empty ∧ text = [] := by
  by_cases hSome : text = []
  · rw [hSome] at h
    cases h
    exact .inr (.inr ⟨rfl, hSome⟩)
  · obtain ⟨quoted, hClassify⟩ :=
      exists_classify_eq_firstOf hSome (List.nil_append Rule.all).symm (by simp)
    rw [hClassify] at h
    rcases Rule.exists_of_firstOf_eq_error h with ⟨rule, hComes, hAttempt⟩ | hNone
    · exact .inl ⟨rule, quoted, hComes, hAttempt⟩
    · exact .inr (.inl hNone)

/-- A text that is refused: it is at fault as a lexeme, and the report shows the whole of it. -/
def Refused (text : List Char) : Prop :=
  ∃ fault report, classify text = .error fault ∧ fault.report? = some report ∧
    report.kind = .lexeme ∧ report.lexeme = String.ofList text

theorem Refused.ne_ok (h : Refused text) (form : Form) : classify text ≠ .ok form := by
  obtain ⟨fault, report, hFault, -⟩ := h
  simp [hFault]

/-- Nothing stands behind a quote mark. -/
def LoneMark (text : List Char) : Prop :=
  ∀ behind, text = '\'' :: behind ∨ text = '#' :: '\'' :: behind → behind = []

theorem loneMark_take_lexemeLength (c : Char) (rest : List Char) :
    LoneMark ((c :: rest).take (lexemeLength (c :: rest))) := by
  have hPrefix := List.take_prefix (lexemeLength (c :: rest)) (c :: rest)
  rintro behind (hQuote | hFunction)
  · rw [hQuote, List.cons_prefix_cons] at hPrefix
    obtain ⟨rfl, -⟩ := hPrefix
    simpa [lexemeLength] using hQuote.symm
  · rw [hFunction, List.cons_prefix_cons] at hPrefix
    obtain ⟨rfl, tail, rfl⟩ := hPrefix
    simpa [lexemeLength] using hFunction.symm

/-- A lexeme is cut off where its kind ends, in front of the text from its place on. -/
theorem exists_of_mem_placedFrom {offset : Nat} {text : List Char} {lexeme : Placed}
    (h : lexeme ∈ placedFrom offset text) :
    ∃ c rest, text.drop (lexeme.start - offset) = c :: rest ∧ isBlank c = false ∧
      lexeme.chars = (c :: rest).take (lexemeLength (c :: rest)) := by
  fun_induction placedFrom offset text with
  | case1 => cases h
  | case2 offset d text _ ih =>
      obtain ⟨c, rest, hDrop, hFound⟩ := ih h
      have hStart := (mem_placedFrom h).1
      refine ⟨c, rest, ?_, hFound⟩
      rwa [show lexeme.start - offset = lexeme.start - (offset + 1) + 1 by omega,
        List.drop_succ_cons]
  | case3 offset d text hBlank length ih =>
      rcases List.mem_cons.mp h with rfl | hMem
      · exact ⟨d, text, by simp, by simpa using hBlank, rfl⟩
      · obtain ⟨c, rest, hDrop, hFound⟩ := ih hMem
        have hStart := (mem_placedFrom hMem).1
        refine ⟨c, rest, ?_, hFound⟩
        rwa [List.drop_drop, show length + (lexeme.start - (offset + length)) =
          lexeme.start - offset by omega] at hDrop

theorem loneMark_of_mem_lexemes {lexeme : List Char} (h : lexeme ∈ lexemes text) :
    LoneMark lexeme := by
  rw [lexemes_eq_map] at h
  obtain ⟨placed, hPlaced, rfl⟩ := List.mem_map.mp h
  obtain ⟨c, rest, -, -, hChars⟩ := exists_of_mem_placedFrom hPlaced
  rw [hChars]
  exact loneMark_take_lexemeLength c rest

end Lexeme

end LispReader
