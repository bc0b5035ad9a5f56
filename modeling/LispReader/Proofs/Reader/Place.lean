import LispReader.Proofs.Lexeme.Ending
import LispReader.Proofs.Lexeme.Oversize
import LispReader.Proofs.Reader.Sole

/-!
Where reading fails. A failure is found at a lexeme of the text. Which one it is depends on what
fails: the first lexeme without a meaning, the innermost parenthesis that is left open, or the first
lexeme that is too much.
-/

namespace LispReader

/-- A span is the first of some spans that has no meaning. -/
def FirstAtFault (spans : List Span) (span : Span) : Prop :=
  ∃ before behind tokens error, spans = before ++ span :: behind ∧ Classified before tokens ∧
    span.classify = .error error

/-- What a span does to the parentheses that are open, innermost first. -/
def matchParen (opened : List Span) (span : Span) : List Span :=
  if span.chars = ['('] then span :: opened
  else if span.chars = [')'] then opened.tail
  else opened

/-- The opening parentheses among some spans that are not closed, innermost first. -/
def openParens (spans : List Span) : List Span :=
  spans.foldl matchParen []

theorem mem_or_mem_of_mem_foldl_matchParen {spans opened : List Span} {span : Span}
    (h : span ∈ spans.foldl matchParen opened) : span ∈ opened ∨ span ∈ spans := by
  induction spans generalizing opened with
  | nil => exact .inl h
  | cons first rest ih =>
      rcases ih h with hOpened | hRest
      · unfold matchParen at hOpened
        split at hOpened
        · exact (List.mem_cons.mp hOpened).symm.imp id fun hFirst => by simp [hFirst]
        · split at hOpened
          · exact .inl (List.mem_of_mem_tail hOpened)
          · exact .inl hOpened
      · exact .inr (List.mem_cons_of_mem _ hRest)

theorem mem_of_mem_openParens {spans : List Span} {span : Span} (h : span ∈ openParens spans) :
    span ∈ spans := by
  rcases mem_or_mem_of_mem_foldl_matchParen h with hNone | hMem
  · cases hNone
  · exact hMem

/-- The parenthesis that a frame has been opened by. -/
def Frame.paren? : Frame → Option Span
  | .list opening _ | .dotted opening _ _ | .closing opening _ _ => some opening
  | .quote _ _ => none

namespace Assembly

variable {nesting : Nesting}

def parens (frames : List Frame) : List Span :=
  frames.filterMap Frame.paren?

theorem parens_deliver (forms : List Form) (form : Form) (frames : List Frame) :
    parens (deliver forms form frames).frames = parens frames := by
  induction frames generalizing form with
  | nil => rfl
  | cons frame outer ih =>
      cases frame with
      | quote mark operator => exact ih _
      | _ => rfl

theorem matchParen_of_classify {span : Span} {token : Form} (hToken : span.classify = .ok token)
    (opened : List Span) :
    matchParen opened span =
      match token with
      | .listStart => span :: opened
      | .listEnd => opened.tail
      | _ => opened := by
  have hMeaning := Span.classify_eq_ok_iff.mp hToken
  have hStart : token = .listStart ↔ span.chars = ['('] := by
    rw [← Lexeme.classify_eq_listStart_iff, hMeaning, Except.ok.injEq]
  have hEnd : token = .listEnd ↔ span.chars = [')'] := by
    rw [← Lexeme.classify_eq_listEnd_iff, hMeaning, Except.ok.injEq]
  unfold matchParen
  cases token <;> simp_all

/-- The lists that are open have been opened by the parentheses that are. -/
theorem Step.parens {assembly next : Assembly} {token : Form} {span : Span}
    (hToken : span.classify = .ok token) (step : Step nesting assembly token span next) :
    parens next.frames = matchParen (parens assembly.frames) span := by
  rw [matchParen_of_classify hToken]
  cases step with
  | keepComment | dropComment | openList | openQuote | dot => rfl
  | atom takes isAtom =>
      rw [parens_deliver]
      cases token <;> first | rfl | cases isAtom
  | closeList | closeDotted => exact parens_deliver _ _ _

theorem parens_of_run {spans : List Span} {start last : Assembly}
    (h : start.run nesting spans = .ok last) :
    parens last.frames = spans.foldl matchParen (parens start.frames) := by
  induction spans generalizing start with
  | nil =>
      cases h
      rfl
  | cons span rest ih =>
      obtain ⟨next, hAccept, hRest⟩ := run_cons_eq_ok_iff.mp h
      obtain ⟨token, hToken, hAccepted⟩ := acceptSpan_eq_ok_iff.mp hAccept
      rw [ih hRest, (accept_eq_ok_iff_step.mp hAccepted).parens hToken]
      rfl

end Assembly

/-- The same spans, all of them among some. -/
def Similarity.among (spans : List Span) : Similarity where
  span left right := left = right ∧ left ∈ spans
  forms _ _ := True
  chars_eq h := by rw [h.1]
  cons _ _ := trivial

/-- A failure at one of some spans. -/
def ReadError.At (spans : List Span) (error : ReadError) : Prop :=
  ∃ span ∈ spans, (∃ fault, error = .lexeme fault (some span.position)) ∨
    ∃ fault, error = StructureFault.atSpan fault span

theorem ReadError.Similar.at_of_among {spans : List Span} {left right : ReadError}
    (h : left.Similar (.among spans) right) : left.At spans := by
  cases h with
  | lexeme fault hSpan => exact ⟨_, hSpan.2, .inl ⟨fault, rfl⟩⟩
  | structural fault hSpan => exact ⟨_, hSpan.2, .inr ⟨fault, rfl⟩⟩

/-- Whatever a run over lexemes fails with, it fails at one of them. -/
theorem Assembly.at_of_conclude {nesting : Nesting} {spans : List Span} {keepComments : Bool}
    {error : ReadError} (h : conclude keepComments (empty.run nesting spans) = .error error) :
    error.At spans := by
  have hSpans : List.Forall₂ (Similarity.among spans).span spans spans :=
    List.forall₂_same.mpr fun span hSpan => ⟨rfl, hSpan⟩
  have hAlike : RunsAlike (.among spans) (empty.run nesting spans) (empty.run nesting spans) :=
    run_similar hSpans ⟨.nil, trivial⟩
  cases hRun : empty.run nesting spans with
  | error refusal =>
      rw [hRun] at h hAlike
      cases h
      cases hAlike with
      | error hError => exact hError.at_of_among
  | ok last =>
      rw [hRun] at h hAlike
      cases hAlike with
      | ok hLast =>
          have hEnd := endOfInput_similar hLast
          simp only [conclude, finish] at h
          generalize last.endOfInput? = ending at h hEnd
          cases hEnd with
          | none => cases h
          | some hError =>
              cases h
              exact hError.at_of_among

/-- A report of a failure points to a span, of which more is known by the kind of failure. -/
structure PointsTo (spans : List Span) (error : ReadError) (report : Report) (span : Span) :
    Prop where
  mem : span ∈ spans
  line : report.line = some (span.position.line : Int)
  column : report.column = some span.position.column
  lexeme : report.kind = .lexeme → report.lexeme = span.text ∧ FirstAtFault spans span
  unterminated : ∀ position, error = .structural .unterminatedList position →
    (openParens spans).head? = some span
  trailing : ∀ position, error = .structural .trailingInput position →
    BehindFirstForm spans span

theorem pointsTo_of_structural {spans : List Span} {fault : StructureFault} {span : Span}
    {report : Report} (hMem : span ∈ spans)
    (hUnterminated : fault = .unterminatedList → (openParens spans).head? = some span)
    (hTrailing : fault = .trailingInput → BehindFirstForm spans span)
    (hReport : (fault.atSpan span).report? = some report) :
    PointsTo spans (fault.atSpan span) report span := by
  cases hReport
  refine ⟨hMem, rfl, rfl, nofun, ?_, ?_⟩
  · rintro position ⟨⟩
    exact hUnterminated rfl
  · rintro position ⟨⟩
    exact hTrailing rfl

theorem pointsTo_of_lexeme {text : List Char} {fault : LexemeFault} {span : Span}
    {report : Report} (hFirst : FirstAtFault (scan text) span)
    (hFault : Lexeme.classify span.chars = .error fault)
    (hReport : (ReadError.lexeme fault (some span.position)).report? = some report) :
    PointsTo (scan text) (.lexeme fault (some span.position)) report span := by
  have hMem : span ∈ scan text := by
    obtain ⟨before, behind, -, -, hScan, -⟩ := hFirst
    rw [hScan]
    simp
  have hLone : Lexeme.LoneMark span.chars :=
    Lexeme.loneMark_of_mem_lexemes (List.mem_map_of_mem hMem)
  rcases Lexeme.report?_of_classify hLone hFault with ⟨-, count, rfl⟩ | ⟨found, hFound, hLexeme⟩
  · cases hReport
  · rw [ReadError.report?, hFound] at hReport
    cases hReport
    exact ⟨hMem, rfl, rfl, fun _ => ⟨hLexeme, hFirst⟩, nofun, nofun⟩

/-- For a structural failure at a lexeme nothing more has to be known but in two cases. -/
theorem exists_pointsTo_of_at {spans : List Span} {error : ReadError} {fault : StructureFault}
    {place : Span} {report : Report} (hAt : error.At spans) (hError : error = fault.atSpan place)
    (hUnterminated : fault ≠ .unterminatedList) (hTrailing : fault ≠ .trailingInput)
    (hReport : error.report? = some report) : ∃ span, PointsTo spans error report span := by
  obtain ⟨span, hSpan, ⟨other, hOther⟩ | ⟨other, hOther⟩⟩ := hAt
  · rw [hError] at hOther
    cases hOther
  · obtain rfl : fault = other := (ReadError.structural.inj (hError.symm.trans hOther)).1
    subst hOther
    exact ⟨span, pointsTo_of_structural hSpan (absurd · hUnterminated) (absurd · hTrailing)
      hReport⟩

theorem Assembly.Refuses.exists_fault {nesting : Nesting} {assembly : Assembly} {token : Form}
    {span : Span} {refusal : Refusal} (h : Refuses nesting assembly token span refusal) :
    ∃ fault place, refusal.error = StructureFault.atSpan fault place ∧
      fault ≠ .unterminatedList ∧ fault ≠ .trailingInput := by
  cases h <;> exact ⟨_, _, rfl, nofun, nofun⟩

section AllForms

variable {text : List Char} {nesting : Nesting} {report : Report}

/-- A lexeme that is refused is reported, or one in front of it that it does not fit. -/
theorem exists_pointsTo_of_refused {refusal : Refusal}
    (hRun : Assembly.empty.run nesting (scan text) = .error refusal)
    (hReport : refusal.error.report? = some report) :
    ∃ span, PointsTo (scan text) refusal.error report span := by
  obtain ⟨before, span, behind, last, hScan, hBefore, hRefused⟩ :=
    Assembly.exists_of_run_eq_error hRun
  rcases Assembly.cases_of_acceptSpan_eq_error hRefused with
    ⟨token, -, hToken⟩ | ⟨fault, hFault, hError⟩
  · have hFailed : Assembly.conclude true (Assembly.empty.run nesting (scan text)) =
        .error refusal.error := congrArg _ hRun
    obtain ⟨fault, place, hError, hUnterminated, hTrailing⟩ := hToken.exists_fault
    exact exists_pointsTo_of_at (Assembly.at_of_conclude hFailed) hError hUnterminated hTrailing
      hReport
  · obtain ⟨tokens, hTokens⟩ := exists_classified_of_run hBefore
    rw [hError] at hReport ⊢
    refine ⟨span, pointsTo_of_lexeme ?_ hFault hReport⟩
    exact ⟨before, behind, tokens, _, hScan, hTokens, span.classify_of_error hFault⟩

/-- What is open when the lexemes come to an end is reported where it has been opened. -/
theorem exists_pointsTo_of_unfinished {frame : Frame} {outer : List Frame} {forms : List Form}
    (hRun : Assembly.empty.run nesting (scan text) = .ok ⟨frame :: outer, forms⟩)
    (hReport : frame.endOfInput.report? = some report) :
    ∃ span, PointsTo (scan text) frame.endOfInput report span := by
  have hParens : Assembly.parens (frame :: outer) = openParens (scan text) :=
    Assembly.parens_of_run hRun
  cases frame with
  | list opening | dotted opening | closing opening =>
      have hHead : (openParens (scan text)).head? = some opening := by
        rw [← hParens]
        rfl
      exact ⟨opening, pointsTo_of_structural (mem_of_mem_openParens (List.mem_of_mem_head? hHead))
        (fun _ => hHead) nofun hReport⟩
  | quote mark operator =>
      have hFailed : Assembly.conclude true (Assembly.empty.run nesting (scan text)) =
          .error (Frame.quote mark operator).endOfInput := congrArg _ hRun
      exact exists_pointsTo_of_at (Assembly.at_of_conclude hFailed) rfl nofun nofun hReport

/-- A failure of reading all forms is reported at a lexeme. -/
theorem exists_pointsTo_of_readText {keepComments : Bool} {maxDepth : Int} {error : ReadError}
    (hFailed : readText text keepComments maxDepth = .error error)
    (hReport : error.report? = some report) :
    ∃ span, PointsTo (scan text) error report span := by
  rw [readText_eq_conclude] at hFailed
  cases hRun : Assembly.empty.run { base := 0, limit := maxDepth } (scan text) with
  | error refusal =>
      rw [hRun] at hFailed
      obtain rfl : refusal.error = error := Except.error.inj hFailed
      exact exists_pointsTo_of_refused hRun hReport
  | ok last =>
      rw [hRun] at hFailed
      obtain ⟨frames, forms⟩ := last
      cases frames with
      | nil => cases hFailed
      | cons frame outer =>
          obtain rfl : frame.endOfInput = error := Except.error.inj hFailed
          exact exists_pointsTo_of_unfinished hRun hReport

end AllForms

/-- Every failure that is reported points to a lexeme of the text: that of a lexeme without a
meaning to the first such lexeme, that of a list without an end to the innermost parenthesis that is
open when the text ends, and that of a text that goes on to the first lexeme behind its first form
that is no comment. Only where there is no form at all is there nothing to point to. -/
theorem report_pointsTo_lexeme {text : List Char} {error : ReadError} {report : Report}
    (hFailed : (∃ keepComments maxDepth, readText text keepComments maxDepth = .error error) ∨
      readForm text = .error error ∧ error ≠ .structural .noForm none)
    (hReport : error.report? = some report) :
    ∃ span, PointsTo (scan text) error report span := by
  rcases hFailed with ⟨keepComments, maxDepth, hRead⟩ | ⟨hRead, hForm⟩
  · exact exists_pointsTo_of_readText hRead hReport
  · have hOutcome := soleOutcome text
    rw [hRead] at hOutcome
    cases hOutcome with
    | none => exact absurd rfl hForm
    | failed h => exact exists_pointsTo_of_readText h hReport
    | @trailing span h =>
        exact ⟨span, pointsTo_of_structural h.mem nofun (fun _ => h) hReport⟩

theorem report_pointsTo_lexeme_of_open_list_and_rest :
    (∃ error report span, readText ['(', '\'', '(', 'a'] true 3 = .error error ∧
      error.report? = some report ∧ report.message = "unterminated list, expected ')'" ∧
      PointsTo (scan ['(', '\'', '(', 'a']) error report span) ∧
    ∃ error report span, readForm ['a', ' ', ';', 'b', '\n', 'c'] = .error error ∧
      error.report? = some report ∧ report.message = "unexpected trailing input" ∧
      PointsTo (scan ['a', ' ', ';', 'b', '\n', 'c']) error report span := by
  constructor
  · generalize hText : ['(', '\'', '(', 'a'] = text
    have hScan : scan text = [⟨0, 1, text⟩, ⟨1, 2, text⟩, ⟨2, 3, text⟩, ⟨3, 4, text⟩] := by
      subst hText
      decide +kernel
    have hRead : readText text true 3 =
        .error (.structural .unterminatedList (some ⟨1, 2⟩)) := by
      rw [readText_eq_conclude, hScan]
      subst hText
      rfl
    obtain ⟨span, hPoints⟩ := report_pointsTo_lexeme (.inl ⟨true, 3, hRead⟩) rfl
    exact ⟨_, _, span, hRead, rfl, rfl, hPoints⟩
  · generalize hText : ['a', ' ', ';', 'b', '\n', 'c'] = text
    have hScan : scan text = [⟨0, 1, text⟩, ⟨2, 4, text⟩, ⟨5, 6, text⟩] := by
      subst hText
      decide +kernel
    have hRead : readForm text = .error (.structural .trailingInput (some ⟨2, 0⟩)) := by
      rw [readForm, Reader.ofText, hScan]
      subst hText
      rfl
    obtain ⟨span, hPoints⟩ := report_pointsTo_lexeme (.inr ⟨hRead, fun h => by cases h⟩) rfl
    exact ⟨_, _, span, hRead, rfl, rfl, hPoints⟩

end LispReader
