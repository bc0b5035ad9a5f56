import LispReader.CommandLine.Run
import LispReader.Proofs.Lexeme.Oversize
import LispReader.Proofs.Lexeme.Whole
import LispReader.Proofs.Reader.Completion

/-!
What is seen of a text that is not read. Every failure is found at a place of the text and reported
with it, but for one: a whole number that is too long to be converted. A run that fails with a
report shows it and ends with a status of its own; the other failure breaks the run off.
-/

namespace LispReader

open Decimal Lexeme CommandLine

/-- A failure of reading with its kind and its place. -/
structure Report.Located (report : Report) : Prop where
  kind : report.kind = .lexeme ∨ report.kind = .structural
  line : ∃ line, report.line = some line
  column : ∃ column, report.column = some column

/-- There is a report of every fault but that of a number that is too long. -/
theorem LexemeFault.report?_cases (fault : LexemeFault) :
    (∃ count, fault = .tooManyDigits count) ∨
      ∃ report, fault.report? = some report ∧ report.kind = .lexeme := by
  cases fault with
  | tooManyDigits count => exact .inl ⟨count, rfl⟩
  | _ => exact .inr ⟨_, rfl, rfl⟩

namespace ReadError

theorem report?_atSpan (fault : StructureFault) (span : Span) :
    ∃ report, (fault.atSpan span).report? = some report ∧ report.Located :=
  ⟨_, rfl, .inr rfl, ⟨_, rfl⟩, ⟨_, rfl⟩⟩

/-- A fault of a lexeme is reported at its place, if it is reported at all. -/
theorem report?_lexeme (fault : LexemeFault) (position : Text.Position) :
    (∃ count, fault = .tooManyDigits count) ∨
      ∃ report, (lexeme fault (some position)).report? = some report ∧ report.Located := by
  rcases fault.report?_cases with hDigits | ⟨report, hReport, hKind⟩
  · exact .inl hDigits
  · refine .inr ⟨report.atPosition (some position), ?_, .inl hKind, ⟨_, rfl⟩, ⟨_, rfl⟩⟩
    rw [report?, hReport]
    rfl

end ReadError

/-- Reading a text fails with a report of the place, or at a number that is too long. -/
theorem readText_eq_error_cases {text : List Char} {keepComments : Bool} {maxDepth : Int}
    {error : ReadError} (h : readText text keepComments maxDepth = .error error) :
    (∃ report, error.report? = some report ∧ report.Located) ∨
      ∃ lexeme ∈ lexemes text, ∃ count, classify lexeme = .error (.tooManyDigits count) := by
  rw [readText_eq_conclude] at h
  cases hRun : Assembly.empty.run { base := 0, limit := maxDepth } (scan text) with
  | error refusal =>
      rw [hRun] at h
      cases h
      rcases Assembly.of_run_eq_error hRun with hToken | ⟨span, hSpan, fault, hFault, hError⟩
      · obtain ⟨fault, span, hError⟩ := hToken.structural
        rw [hError]
        exact .inl (ReadError.report?_atSpan fault span)
      · rw [hError]
        rcases ReadError.report?_lexeme fault span.position with ⟨count, rfl⟩ | hReport
        · exact .inr ⟨span.chars, List.mem_map_of_mem hSpan, count, hFault⟩
        · exact .inl hReport
  | ok assembly =>
      obtain ⟨frames, forms⟩ := assembly
      rw [hRun] at h
      cases frames with
      | nil => cases h
      | cons frame outer =>
          cases h
          cases frame <;> exact .inl (ReadError.report?_atSpan _ _)

namespace CommandLine

variable {m : Type → Type} [Monad m]

/-- A failure with a report is shown, and the run ends with the status for failures. -/
theorem parseText_of_report (host : Host m) (job : Job) {settings : Settings} {text : List Char}
    {error : ReadError} {report : Report}
    (hRead : readText text settings.keepComments settings.maxDepth = .error error)
    (hReport : error.report? = some report) :
    parseText host job settings text = reportFailure host job "" report.text := by
  have hDigits : excessDigits? error = none := by
    cases error with
    | structural => rfl
    | lexeme fault position =>
        cases fault with
        | tooManyDigits count => cases hReport
        | _ => rfl
  have hText : error.text = report.text := by
    rw [ReadError.text, hReport]
  simp only [parseText, hRead, hDigits, hText]

end CommandLine

/-- Without an oversize numeral in it, a text is read or fails with a report of the place, which the
command shows before it ends with the status for failures. A numeral outside of 64 bits is such a
failure of its lexeme. -/
theorem readText_error_reported {text : List Char}
    (hShort : ∀ lexeme ∈ lexemes text, ¬ Oversize lexeme) :
    (∀ lexeme ∈ lexemes text, OutOfRange lexeme → ∃ fault report,
      classify lexeme = .error fault ∧ fault.report? = some report ∧ report.kind = .lexeme) ∧
    ∀ (keepComments : Bool) (maxDepth : Int),
      (∃ forms, readText text keepComments maxDepth = .ok forms) ∨
      ∃ error report, readText text keepComments maxDepth = .error error ∧
        error.report? = some report ∧ report.Located ∧
        ∀ {m : Type → Type} [Monad m] (host : Host m) (job : Job) (settings : Settings),
          settings.keepComments = keepComments → settings.maxDepth = maxDepth →
            parseText host job settings text = reportFailure host job "" report.text := by
  refine ⟨fun lexeme hLexeme hRange => classify_of_outOfRange hRange (hShort lexeme hLexeme), ?_⟩
  intro keepComments maxDepth
  cases hRead : readText text keepComments maxDepth with
  | ok forms => exact .inl ⟨forms, rfl⟩
  | error error =>
      rcases readText_eq_error_cases hRead with ⟨report, hReport, hLocated⟩ | hOversize
      · refine .inr ⟨error, report, rfl, hReport, hLocated, ?_⟩
        intro m _ host job settings hKeep hDepth
        exact parseText_of_report host job (hKeep ▸ hDepth ▸ hRead) hReport
      · obtain ⟨lexeme, hLexeme, count, hFault⟩ := hOversize
        exact absurd (oversize_of_classify (loneMark_of_mem_lexemes hLexeme) hFault)
          (hShort lexeme hLexeme)

theorem readText_error_reported_of_large_ratio :
    (∃ fault report, classify ['1', '/', '9', '2', '2', '3', '3', '7', '2', '0', '3', '6', '8', '5',
        '4', '7', '7', '5', '8', '0', '8'] = .error fault ∧
      fault.report? = some report ∧ report.kind = .lexeme) ∧
    ∃ error report, readText ['\'', '1', '/', '9', '2', '2', '3', '3', '7', '2', '0', '3', '6', '8',
        '5', '4', '7', '7', '5', '8', '0', '8'] false 256 = .error error ∧
      error.report? = some report ∧ report.Located := by
  generalize hText : ['\'', '1', '/', '9', '2', '2', '3', '3', '7', '2', '0', '3', '6', '8', '5',
    '4', '7', '7', '5', '8', '0', '8'] = text
  have hScan : scan text = [⟨0, 1, text⟩, ⟨1, 22, text⟩] := by
    subst hText
    decide +kernel
  have hLexemes : lexemes text = [['\''], ['1', '/', '9', '2', '2', '3', '3', '7', '2', '0', '3',
      '6', '8', '5', '4', '7', '7', '5', '8', '0', '8']] := by
    rw [lexemes, hScan]
    subst hText
    rfl
  have hShort : ∀ lexeme ∈ lexemes text, ¬ Oversize lexeme := by
    rw [hLexemes]
    intro lexeme hLexeme hOversize
    have hLong := hOversize.digitLimit_lt_length
    simp only [List.mem_cons, List.not_mem_nil, or_false] at hLexeme
    rcases hLexeme with rfl | rfl <;> simp [digitLimit] at hLong
  obtain ⟨hRange, hRead⟩ := readText_error_reported hShort
  constructor
  · refine hRange _ (by simp [hLexemes]) ?_
    have hOne : IntegerShape ['1'] := isInteger_iff.mp rfl
    exact .ratio hOne rfl (.inr (by unfold IsWord; decide))
  · rcases hRead false 256 with ⟨forms, hForms⟩ | ⟨error, report, hError, hReport, hLocated, -⟩
    · rw [readText_eq_conclude, hScan] at hForms
      subst hText
      cases hForms
    · exact ⟨error, report, hError, hReport, hLocated⟩

/-- Digits that are too many to be converted are not read, and there is no report of it. -/
theorem readText_of_tooLong {digits : List Char} (hDigits : isDigits digits = true)
    (hLong : digitLimit < digits.length) (keepComments : Bool) (maxDepth : Int) :
    ∃ position, readText digits keepComments maxDepth =
      .error (.lexeme (.tooManyDigits digits.length) (some position)) := by
  have hShape : IntegerShape digits := ⟨[], digits, .inl rfl, hDigits, rfl⟩
  have hTaken : takeSign digits = (false, digits) := takeSign_of_isDigits hDigits
  have hWord : readWord digits digits = .error (.tooManyDigits digits.length) :=
    readWord_eq_tooManyDigits_iff.mpr ⟨by rwa [TooLong, hTaken], by rw [hTaken]⟩
  have hLexemes : lexemes digits = [digits] := by
    have hStops : StopsAtom [] := by simp [StopsAtom]
    have hWhole := (wholeAtom_of_integerShape hShape).lexemes_append hStops
    rwa [List.append_nil, lexemes_nil] at hWhole
  obtain ⟨span, hScan, hChars⟩ := List.map_eq_singleton_iff.mp hLexemes
  have hClassify : span.classify =
      .error (.lexeme (.tooManyDigits digits.length) (some span.position)) := by
    rw [Span.classify, hChars, classify_of_integerShape hShape, hWord]
    rfl
  refine ⟨span.position, ?_⟩
  rw [readText_eq_conclude, hScan, Assembly.run_cons, Assembly.acceptSpan, hClassify]
  rfl

theorem readText_of_digits_unreported :
    ∃ error, readText (List.replicate 4301 '1') false 256 = .error error ∧ error.report? = none ∧
      ∀ {m : Type → Type} [Monad m] (host : Host m) (job : Job),
        parseText host job {} (List.replicate 4301 '1') =
          pure (.breakdown (.tooManyDigits 4301)) := by
  generalize hCount : 4301 = count
  have hLong : digitLimit < count := hCount ▸ (by decide)
  have hDigits : isDigits (List.replicate count '1') = true :=
    isDigits_iff.mpr ⟨by simp; omega, fun c hc => by rw [List.eq_of_mem_replicate hc]; rfl⟩
  obtain ⟨position, hRead⟩ := readText_of_tooLong hDigits (by rwa [List.length_replicate]) false 256
  rw [List.length_replicate] at hRead
  refine ⟨_, hRead, rfl, ?_⟩
  intro m _ host job
  have hSettings : readText (List.replicate count '1') ({} : Settings).keepComments
      ({} : Settings).maxDepth = _ := hRead
  simp only [parseText, hSettings, excessDigits?]

end LispReader
