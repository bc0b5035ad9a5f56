import LispReader.Proofs.CommandLine.Failure
import LispReader.Proofs.Reader.Sole

/-!
Quote marks in front of a lexeme. They are resolved in two ways: the meaning of a text goes through
the marks one by one, and the reader finds every mark as a lexeme of its own and puts the form
together behind them. Both come to the same form, or both fail.
-/

namespace LispReader

open Lexeme Decimal

/-- A rule that applies decides by itself. -/
theorem Rule.firstOf_of_attempt {rule : Rule} {text : List Char}
    {quoted : Unit → Except LexemeFault Form} {outcome : Except LexemeFault Form}
    (h : rule.attempt text quoted = some <$> outcome) (others : List Rule) :
    Rule.firstOf (rule :: others) text quoted = outcome := by
  cases outcome with
  | ok form => exact Rule.firstOf_take h
  | error fault => exact Rule.firstOf_fail h

/-- A mark that is written in front of a form. -/
inductive QuoteMark where
  | quote
  | function
  deriving Repr, DecidableEq

namespace QuoteMark

def chars : QuoteMark → List Char
  | .quote => ['\'']
  | .function => ['#', '\'']

/-- The operator that a mark stands for. -/
def operator : QuoteMark → String
  | .quote => "quote"
  | .function => "function"

def token (mark : QuoteMark) : Form :=
  .quotePrefix (.text mark.operator)

/-- A text with marks in front of it. -/
def before (marks : List QuoteMark) (text : List Char) : List Char :=
  marks.foldr (fun mark behind => mark.chars ++ behind) text

/-- What marks make of a form, the last one first. -/
def apply (marks : List QuoteMark) (form : Form) : Form :=
  marks.foldr (fun mark inner => .quoteForm (.text mark.operator) inner) form

theorem classify_chars (mark : QuoteMark) : classify mark.chars = .ok mark.token := by
  cases mark <;> rfl

/-- A text that begins with a mark is passed over by the rules in front of those for marks. -/
theorem not_applies (mark : QuoteMark) (behind : List Char) :
    ∀ rule ∈ [Rule.comment, .marker, .rational, .float, .integer, .string],
      ¬ rule.Applies (mark.chars ++ behind) := by
  obtain ⟨c, rest, hText, hMark⟩ :
      ∃ c rest, mark.chars ++ behind = c :: rest ∧ (c = '\'' ∨ c = '#') := by
    cases mark with
    | quote => exact ⟨_, _, rfl, .inl rfl⟩
    | function => exact ⟨_, _, rfl, .inr rfl⟩
  have hStarts : ¬ StartsNumber c := by
    rcases hMark with rfl | rfl <;> simp [StartsNumber]
  obtain ⟨hInteger, hRatio, hFloat⟩ := not_number_of_not_startsNumber hStarts rest
  rw [hText]
  intro rule hRule
  simp only [List.mem_cons, List.not_mem_nil, or_false] at hRule
  rcases hRule with rfl | rfl | rfl | rfl | rfl | rfl
  · rintro ⟨tail, hTail⟩
    rcases hMark with rfl | rfl <;> cases hTail
  · rcases hMark with rfl | rfl <;> simp [Rule.Applies]
  · exact hRatio
  · exact hFloat
  · exact hInteger
  · rintro ⟨tail, hTail⟩
    rcases hMark with rfl | rfl <;> cases hTail

theorem applyQuote_of_ne_nil {operator : String} {text behind : List Char}
    {quoted : Unit → Except LexemeFault Form} (hSome : behind ≠ []) :
    applyQuote operator text behind quoted =
      quoted () >>= fun form =>
        if form.isStructural then .error (.nothingToQuote operator (String.ofList text))
        else .ok (.quoteForm (.text operator) form) := by
  rw [applyQuote, if_neg (by simpa using hSome)]
  rfl

/-- A mark applies to the meaning of what is behind it. -/
theorem classify_append (mark : QuoteMark) {behind : List Char} (hSome : behind ≠ []) :
    classify (mark.chars ++ behind) =
      classify behind >>= fun form =>
        if form.isStructural then
          .error (.nothingToQuote mark.operator (String.ofList (mark.chars ++ behind)))
        else .ok (.quoteForm (.text mark.operator) form) := by
  have hPassed := mark.not_applies behind
  have hApplied := @applyQuote_of_ne_nil mark.operator (mark.chars ++ behind) behind
    (fun _ => classify behind) hSome
  refine Eq.trans ?_ hApplied
  rw [classify, classifyBy.eq_def]
  cases mark with
  | function => exact (Rule.firstOf_append hPassed).trans (Rule.firstOf_of_attempt rfl _)
  | quote =>
      have hQuote : ∀ rule ∈ [Rule.comment, .marker, .rational, .float, .integer, .string] ++
          [.functionQuote], ¬ rule.Applies ('\'' :: behind) := by
        intro rule hRule
        rcases List.mem_append.mp hRule with hRule | hRule
        · exact hPassed rule hRule
        · obtain rfl := List.mem_singleton.mp hRule
          rintro ⟨rest, hRest⟩
          cases hRest
      exact (Rule.firstOf_append hQuote).trans (Rule.firstOf_of_attempt rfl _)

theorem before_ne_nil (marks : List QuoteMark) {text : List Char} (hSome : text ≠ []) :
    before marks text ≠ [] := by
  cases marks with
  | nil => exact hSome
  | cons mark marks => cases mark <;> exact List.cons_ne_nil _ _

theorem not_isStructural_apply (marks : List QuoteMark) {form : Form}
    (h : form.isStructural = false) : (apply marks form).isStructural = false := by
  cases marks with
  | nil => exact h
  | cons mark marks => rfl

/-- Marks apply to the meaning of a form. -/
theorem classify_before (marks : List QuoteMark) {text : List Char} {form : Form}
    (hText : classify text = .ok form) (hForm : form.isStructural = false) :
    classify (before marks text) = .ok (apply marks form) := by
  have hSome : text ≠ [] := by
    rintro rfl
    cases hText
  induction marks with
  | nil => exact hText
  | cons mark marks ih =>
      have hBehind : classify (mark.chars ++ before marks text) = _ :=
        mark.classify_append (before_ne_nil marks hSome)
      rw [ih] at hBehind
      refine hBehind.trans ?_
      exact if_neg (by rw [not_isStructural_apply marks hForm]; exact Bool.false_ne_true)

/-- A text is at fault, and there is a report of it. -/
def AtFault (text : List Char) : Prop :=
  ∃ fault report, classify text = .error fault ∧ fault.report? = some report

/-- There is no form in a text: it is at fault, or means something that is no form. -/
def NoForm (text : List Char) : Prop :=
  AtFault text ∨ ∃ token, classify text = .ok token ∧ token.isStructural = true

/-- A lexeme that is not oversize means a form, or there is none in it. -/
theorem noForm_of_not_exists {text : List Char} (hLone : LoneMark text) (hShort : ¬ Oversize text)
    (h : ¬ ∃ form, classify text = .ok form ∧ form.isStructural = false) : NoForm text := by
  cases hMeaning : classify text with
  | error fault =>
      rcases report?_of_classify hLone hMeaning with ⟨hOversize, -⟩ | ⟨report, hReport, -⟩
      · exact absurd hOversize hShort
      · exact .inl ⟨fault, report, hMeaning, hReport⟩
  | ok token =>
      refine .inr ⟨token, hMeaning, ?_⟩
      by_contra hForm
      exact h ⟨token, hMeaning, by simpa using hForm⟩

/-- A mark is at fault where there is no form behind it. -/
theorem atFault_append (mark : QuoteMark) {behind : List Char} (hSome : behind ≠ [])
    (h : NoForm behind) : AtFault (mark.chars ++ behind) := by
  rcases h with ⟨fault, report, hFault, hReport⟩ | ⟨token, hToken, hStructural⟩
  · refine ⟨fault, report, ?_, hReport⟩
    rw [mark.classify_append hSome, hFault]
    rfl
  · refine ⟨.nothingToQuote mark.operator (String.ofList (mark.chars ++ behind)), _, ?_, rfl⟩
    rw [mark.classify_append hSome, hToken]
    exact if_pos hStructural

theorem atFault_before {marks : List QuoteMark} (hMarks : marks ≠ []) {text : List Char}
    (hSome : text ≠ []) (h : NoForm text) : AtFault (before marks text) := by
  induction marks with
  | nil => exact absurd rfl hMarks
  | cons mark marks ih =>
      refine mark.atFault_append (before_ne_nil marks hSome) ?_
      cases marks with
      | nil => exact h
      | cons next marks => exact .inl (ih (List.cons_ne_nil _ _))

/-- Every mark is a lexeme of its own. -/
theorem lexemes_before (marks : List QuoteMark) (text : List Char) :
    lexemes (before marks text) = marks.map chars ++ lexemes text := by
  induction marks with
  | nil => rfl
  | cons mark marks ih =>
      rw [List.map_cons, List.cons_append, ← ih]
      cases mark <;> exact lexemes_cons rfl _

theorem classified_before_iff {marks : List QuoteMark} {text : List Char} {tokens : List Form} :
    Classified (scan (before marks text)) tokens ↔
      ∃ others, tokens = marks.map token ++ others ∧ Classified (scan text) others := by
  rw [classified_scan_iff, lexemes_before]
  induction marks generalizing tokens with
  | nil => simp [classified_scan_iff]
  | cons mark marks ih =>
      rw [List.map_cons, List.cons_append, List.forall₂_cons_left_iff]
      constructor
      · rintro ⟨first, rest, hFirst, hRest, rfl⟩
        obtain rfl : mark.token = first := Except.ok.inj (mark.classify_chars.symm.trans hFirst)
        obtain ⟨others, rfl, hOthers⟩ := ih.mp hRest
        exact ⟨others, rfl, hOthers⟩
      · rintro ⟨others, rfl, hOthers⟩
        exact ⟨mark.token, _, mark.classify_chars, ih.mpr ⟨others, rfl, hOthers⟩, rfl⟩

/-- A derivation with marks in front of it. -/
def nest (marks : List QuoteMark) (derivation : Derivation) : Derivation :=
  marks.foldr (fun mark inner => .quoted (.text mark.operator) inner) derivation

theorem word_nest (marks : List QuoteMark) (derivation : Derivation) :
    (nest marks derivation).word = marks.map token ++ derivation.word := by
  induction marks with
  | nil => rfl
  | cons mark marks ih => exact congrArg (mark.token :: ·) ih

theorem value_nest (marks : List QuoteMark) (derivation : Derivation) :
    (nest marks derivation).value = apply marks derivation.value := by
  induction marks with
  | nil => rfl
  | cons mark marks ih => exact congrArg (Token.quoteForm (.text mark.operator)) ih

theorem depth_nest (marks : List QuoteMark) (derivation : Derivation) :
    (nest marks derivation).depth = derivation.depth + marks.length := by
  induction marks with
  | nil => rfl
  | cons mark marks ih => exact congrArg (· + 1) ih

/-- Marks are no beginning of a derivation if behind them there is at most a token that stands for
no form. -/
theorem word_append_ne (marks : List QuoteMark) {ending : List Form} (hShort : ending.length ≤ 1)
    (hEnding : ∀ token ∈ ending, token.isStructural = true) (derivation : Derivation)
    (rest : List Form) : derivation.word ++ rest ≠ marks.map token ++ ending := by
  intro hWord
  induction marks generalizing derivation with
  | nil =>
      have hLength := congrArg List.length hWord
      simp only [List.map_nil, List.nil_append, List.length_append] at hLength
      cases derivation with
      | atom token isAtom =>
          have hToken := hEnding token (by
            rw [← show _ = ending from hWord]
            simp [Derivation.word])
          rw [isAtom] at hToken
          cases hToken
      | list items =>
          simp [Derivation.word] at hLength
          omega
      | dotted first others tail =>
          simp [Derivation.word] at hLength
          omega
      | quoted operator form =>
          obtain ⟨token, word, hForm, -⟩ := form.exists_word_eq_cons
          simp [Derivation.word, hForm] at hLength
          omega
  | cons mark marks ih =>
      cases derivation with
      | atom token isAtom =>
          obtain ⟨rfl, -⟩ := List.cons.inj hWord
          cases isAtom
      | list items | dotted first others tail => cases hWord
      | quoted operator form => exact ih form (List.cons.inj hWord).2

section Whole

variable {marks : List QuoteMark} {text : List Char}

theorem classified_whole_iff (hWhole : lexemes text = [text]) {tokens : List Form} :
    Classified (scan text) tokens ↔ ∃ token, tokens = [token] ∧ classify text = .ok token := by
  rw [classified_scan_iff, hWhole, List.forall₂_cons_left_iff]
  constructor
  · rintro ⟨token, rest, hToken, hRest, rfl⟩
    cases hRest
    exact ⟨token, rfl, hToken⟩
  · rintro ⟨token, rfl, hToken⟩
    exact ⟨token, [], hToken, .nil, rfl⟩

/-- Behind marks a lexeme is read only if it is a form by itself. -/
theorem exists_form_of_readText (hMarks : marks ≠ []) (hWhole : lexemes text = [text])
    {forms : List Form} (hRead : readText (before marks text) = .ok forms) :
    ∃ form, classify text = .ok form ∧ form.isStructural = false := by
  obtain ⟨last, hRun, hClosed, -⟩ := readText_eq_ok_iff.mp hRead
  obtain ⟨tokens, hTokens⟩ := exists_classified_of_run hRun
  obtain ⟨derivations, hWords, -, -⟩ :=
    exists_derivations_of_run Reader.allows_zero hTokens hRun hClosed
  obtain ⟨others, rfl, hOthers⟩ := classified_before_iff.mp hTokens
  obtain ⟨form, rfl, hForm⟩ := (classified_whole_iff hWhole).mp hOthers
  refine ⟨form, hForm, ?_⟩
  by_contra hStructural
  have hMarked : withoutComments (marks.map token) = marks.map token := by
    refine List.filter_eq_self.mpr fun marked hMem => ?_
    obtain ⟨mark, -, rfl⟩ := List.mem_map.mp hMem
    rfl
  rw [withoutComments_append, hMarked] at hWords
  cases derivations with
  | nil =>
      have hNone := (List.append_eq_nil_iff.mp hWords.symm).1
      exact hMarks (List.map_eq_nil_iff.mp hNone)
  | cons derivation rest =>
      refine word_append_ne marks (List.length_filter_le _ [form]) ?_ derivation _ hWords
      intro token hToken
      obtain rfl := List.mem_singleton.mp (List.mem_of_mem_filter hToken)
      simpa using hStructural

/-- Behind marks a lexeme that is no form is not read, and there is a report of it unless the lexeme
is oversize. -/
theorem exists_error_of_readForm (hMarks : marks ≠ []) (hWhole : lexemes text = [text])
    (hShort : ¬ Oversize text)
    (hNone : ¬ ∃ form, classify text = .ok form ∧ form.isStructural = false) :
    ∃ error report, readForm (before marks text) = .error error ∧
      error.report? = some report := by
  have hOutcome := soleOutcome (before marks text)
  generalize hRead : readForm (before marks text) = answer at hOutcome
  cases hOutcome with
  | form h => exact absurd (exists_form_of_readText hMarks hWhole h) hNone
  | none h => exact absurd (exists_form_of_readText hMarks hWhole h) hNone
  | trailing => exact ⟨_, _, rfl, rfl⟩
  | @failed error h =>
      rcases readText_eq_error_cases h with ⟨report, hReport, -⟩ | ⟨lexeme, hMem, count, hCount⟩
      · exact ⟨error, report, rfl, hReport⟩
      · rw [lexemes_before, hWhole] at hMem
        rcases List.mem_append.mp hMem with hMark | hText
        · obtain ⟨mark, -, rfl⟩ := List.mem_map.mp hMark
          rw [mark.classify_chars] at hCount
          cases hCount
        · obtain rfl := List.mem_singleton.mp hText
          have hLone : LoneMark lexeme := loneMark_of_mem_lexemes (hWhole ▸ hText)
          exact absurd (oversize_of_classify hLone hCount) hShort

end Whole

end QuoteMark

open QuoteMark

/-- The meaning of a lexeme with marks in front of it agrees with what is read there. If the lexeme
is a form, both come to the form that the marks make of it, and otherwise both fail with a
report. -/
theorem classify_marked_agrees_readForm {marks : List QuoteMark} {text : List Char}
    (hMarks : marks ≠ []) (hFew : marks.length ≤ 256)
    (hWhole : scan text = [⟨0, text.length, text⟩]) (hShort : ¬ Oversize text) :
    (∃ form, classify text = .ok form ∧
      classify (before marks text) = .ok (apply marks form) ∧
      readForm (before marks text) = .ok (apply marks form)) ∨
    (∃ fault report, classify (before marks text) = .error fault ∧
      fault.report? = some report) ∧
    ∃ error report, readForm (before marks text) = .error error ∧
      error.report? = some report := by
  have hLexemes : lexemes text = [text] := by
    rw [lexemes, hWhole, List.map_singleton]
    congr 1
    rw [← Nat.cast_zero, Span.chars_natCast (Nat.le_refl _)]
    simp
  have hLone : LoneMark text := loneMark_of_mem_lexemes (hLexemes ▸ List.mem_singleton_self text)
  have hSome : text ≠ [] := by
    rintro rfl
    rw [lexemes_nil] at hLexemes
    cases hLexemes
  by_cases hForm : ∃ form, classify text = .ok form ∧ form.isStructural = false
  · obtain ⟨form, hMeaning, isAtom⟩ := hForm
    refine .inl ⟨form, hMeaning, classify_before marks hMeaning isAtom, ?_⟩
    have hTokens : Classified (scan (before marks text))
        (nest marks (.atom form isAtom)).word := by
      rw [word_nest]
      refine classified_before_iff.mpr ⟨_, rfl, ?_⟩
      exact (classified_whole_iff hLexemes).mpr ⟨form, rfl, hMeaning⟩
    have hDepth : (nest marks (.atom form isAtom)).depth ≤ Reader.defaultMaxDepth := by
      rw [depth_nest, Derivation.depth, Nat.zero_add]
      exact Int.ofNat_le.mpr hFew
    rw [readForm_of_word hTokens hDepth, value_nest]
    rfl
  · have hNone : NoForm text := noForm_of_not_exists hLone hShort hForm
    exact .inr ⟨atFault_before hMarks hSome hNone,
      exists_error_of_readForm hMarks hLexemes hShort hForm⟩

theorem classify_marked_agrees_readForm_of_symbol :
    (∃ form, classify ['a'] = .ok form ∧
      classify ['\'', '#', '\'', 'a'] = .ok (apply [.quote, .function] form) ∧
      readForm ['\'', '#', '\'', 'a'] = .ok (apply [.quote, .function] form)) ∧
    (∃ fault report, classify ['#', '\'', ')'] = .error fault ∧ fault.report? = some report) ∧
    ∃ error report, readForm ['#', '\'', ')'] = .error error ∧ error.report? = some report := by
  have hShort (c : Char) : ¬ Oversize [c] := fun hOversize => by
    have hLong := hOversize.digitLimit_lt_length
    simp [digitLimit] at hLong
  constructor
  · rcases @classify_marked_agrees_readForm [.quote, .function] ['a']
      (by decide) (by decide) (by decide +kernel) (hShort 'a') with
      hForm | ⟨⟨fault, report, hFault, -⟩, -⟩
    · exact hForm
    · cases hFault
  · rcases @classify_marked_agrees_readForm [.function] [')']
      (by decide) (by decide) (by decide +kernel) (hShort ')') with ⟨form, -, hForm, -⟩ | hFault
    · cases hForm
    · exact hFault

end LispReader
