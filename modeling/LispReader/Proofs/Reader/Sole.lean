import LispReader.Proofs.Reader.Blanked
import LispReader.Proofs.Reader.Lookahead
import LispReader.Proofs.Reader.Single

/-!
What comes of reading the only form of a text. Comments are passed over, lexemes are taken until no
frame is open, and behind that nothing but comments may follow. The outcome is compared with that of
reading all forms: it is the only one of them, or the same failure, or a failure of its own.
-/

namespace LispReader

open LispReader.Derivation (words values)

/-- The first form is complete in front of a span, and nothing but comments stands in between. -/
inductive BehindFirstForm : List Span → Span → Prop where
  | intro {first comments behind : List Span} {span : Span} {tokens : List Form}
      {derivation : Derivation} {token : Form} (hFirst : Classified first tokens)
      (hWord : withoutComments tokens = derivation.word) (hComments : AreComments comments)
      (hToken : span.classify = .ok token) (hOther : token.isComment = false) :
      BehindFirstForm (first ++ (comments ++ span :: behind)) span

theorem BehindFirstForm.mem {spans : List Span} {span : Span} (h : BehindFirstForm spans span) :
    span ∈ spans := by
  cases h
  simp

/-- Comments that are in front do not count. -/
theorem BehindFirstForm.comments_append {comments spans : List Span} {span : Span}
    (hComments : AreComments comments) (h : BehindFirstForm spans span) :
    BehindFirstForm (comments ++ spans) span := by
  obtain ⟨others, hOthers, hNone⟩ := hComments.exists_classified
  cases h with
  | @intro first between behind _ tokens derivation token hFirst hWord hBetween hToken hOther =>
      have hWhole : withoutComments (others ++ tokens) = derivation.word := by
        rw [withoutComments_append, hNone, List.nil_append, hWord]
      rw [← List.append_assoc]
      exact .intro (List.rel_append hOthers hFirst) hWhole hBetween hToken hOther

/-- The outcome of reading the only form of a text. -/
inductive SoleOutcome (text : List Char) : Except ReadError Form → Prop where
  | form {form : Form} (h : readText text = .ok [form]) : SoleOutcome text (.ok form)
  | none (h : readText text = .ok []) : SoleOutcome text (.error (.structural .noForm none))
  | failed {error : ReadError} (h : readText text = .error error) :
      SoleOutcome text (.error error)
  /-- A form is read, and the text goes on. -/
  | trailing {span : Span} (h : BehindFirstForm (scan text) span) :
      SoleOutcome text (.error (StructureFault.trailingInput.atSpan span))

namespace Assembly

variable {nesting : Nesting}

/-- Where comments are dropped, they do not matter for what a run comes to. -/
theorem conclude_run_thinned (nesting : Nesting) {spans others : List Span}
    (h : Thinned .inPlace spans others) :
    conclude false (empty.run nesting spans) = conclude false (empty.run nesting others) := by
  refine (run_thinned h ?_ ⟨.nil, rfl⟩).conclude_inPlace
  intro comment forms forms' hComment hForms
  exact (withoutComments_cons_of_isComment hComment forms).trans hForms

/-- What feeding comes to that stops outside of all frames. -/
inductive FirstForm (nesting : Nesting) (start : Assembly) (spans : List Span) :
    Feeding → Prop where
  | refused {assembly : Assembly} {pending : List Span} {refusal : Refusal}
      (hRun : start.run nesting spans = .error refusal) :
      FirstForm nesting start spans { assembly, pending, refusal := some refusal }
  /-- The lexemes come to an end first. -/
  | unfinished {frames : List Frame} (hRun : start.run nesting spans = .ok ⟨frames, []⟩)
      (hOpen : spans ≠ [] → frames ≠ []) :
      FirstForm nesting start spans { assembly := ⟨frames, []⟩, pending := [] }
  | found {first behind : List Span} {form : Form} (hSpans : spans = first ++ behind)
      (hRun : start.run nesting first = .ok ⟨[], [form]⟩) :
      FirstForm nesting start spans { assembly := ⟨[], [form]⟩, pending := behind }

theorem firstForm_feed (nesting : Nesting) (frames : List Frame) (spans : List Span) :
    FirstForm nesting ⟨frames, []⟩ spans
      (feed nesting (fun assembly => assembly.frames.isEmpty) ⟨frames, []⟩ spans) := by
  induction spans generalizing frames with
  | nil => exact .unfinished rfl fun h => absurd rfl h
  | cons span rest ih =>
      rw [feed_cons]
      cases hAccept : acceptSpan nesting ⟨frames, []⟩ span with
      | error refusal =>
          refine .refused ?_
          rw [run_cons, hAccept]
          rfl
      | ok next =>
          have hCons (spans : List Span) :
              run nesting ⟨frames, []⟩ (span :: spans) = next.run nesting spans := by
            rw [run_cons, hAccept]
            rfl
          obtain ⟨token, -, hToken⟩ := acceptSpan_eq_ok_iff.mp hAccept
          rcases (accept_eq_ok_iff_step.mp hToken).first_form rfl with
            ⟨hFrames, hForms⟩ | ⟨form, rfl⟩
          · obtain ⟨inner, forms⟩ := next
            obtain rfl : forms = [] := hForms
            dsimp only
            rw [if_neg (List.isEmpty_iff.not.mpr hFrames)]
            generalize hFeed : feed nesting _ ⟨inner, []⟩ rest = feeding
            have hRest := ih inner
            rw [hFeed] at hRest
            cases hRest with
            | refused hRun => exact .refused ((hCons rest).trans hRun)
            | unfinished hRun hOpen =>
                refine .unfinished ((hCons rest).trans hRun) fun _ => ?_
                by_cases hEnd : rest = []
                · subst hEnd
                  cases hRun
                  exact hFrames
                · exact hOpen hEnd
            | @found first behind form hSpans hRun =>
                exact .found (congrArg (span :: ·) hSpans) ((hCons first).trans hRun)
          · exact .found (List.singleton_append (x := span)).symm (hCons [])

/-- A form that is finished over lexemes, of which the first is no comment, is derived from
them. -/
theorem exists_derivation_of_run (hBase : nesting.Allows 0) {span : Span} {token form : Form}
    {rest : List Span} (hToken : span.classify = .ok token) (hOther : token.isComment = false)
    (hRun : empty.run nesting (span :: rest) = .ok ⟨[], [form]⟩) :
    ∃ tokens derivation, Classified (span :: rest) tokens ∧
      withoutComments tokens = Derivation.word derivation ∧ derivation.value = form := by
  obtain ⟨tokens, hTokens⟩ := exists_classified_of_run hRun
  obtain ⟨derivations, hWords, -, hValues⟩ :=
    exists_derivations_of_run hBase hTokens hRun rfl
  obtain ⟨first, others, hFirst, -, rfl⟩ := List.forall₂_cons_left_iff.mp hTokens
  obtain rfl : token = first := Except.ok.inj (hToken.symm.trans hFirst)
  rw [withoutComments_cons hOther] at hWords
  rcases derivations with _ | ⟨derivation, _ | ⟨second, more⟩⟩
  · cases hWords
  · refine ⟨_, derivation, hTokens, ?_, ?_⟩
    · rw [withoutComments_cons hOther, ← hWords, words, words, List.append_nil]
    · cases hForm : form.isComment <;> simp [withoutComments, values, hForm] at hValues
      exact hValues.symm
  · have hLength := congrArg List.length hValues
    have hOne : (withoutComments [form]).length ≤ 1 := List.length_filter_le _ _
    simp only [values, List.length_reverse, List.length_cons] at hLength
    omega

end Assembly

namespace Reader

theorem allows_zero : Nesting.Allows { base := 0, limit := defaultMaxDepth } 0 := by
  simp [Nesting.Allows, defaultMaxDepth]

/-- What comes of passing over comments, and which lexemes are left by it. -/
inductive Skipped (spans : List Span) : Except ReadError Unit → Supply → Prop where
  | ended (h : AreComments spans) : Skipped spans (.ok ()) ⟨none, []⟩
  | stopped {comments behind : List Span} {span : Span} {token : Form} (h : AreComments comments)
      (hSpans : spans = comments ++ span :: behind) (hToken : span.classify = .ok token)
      (hOther : token.isComment = false) : Skipped spans (.ok ()) ⟨some (token, span), behind⟩
  | failed {comments behind : List Span} {span : Span} {error : ReadError}
      (h : AreComments comments) (hSpans : spans = comments ++ span :: behind)
      (hFault : span.classify = .error error) : Skipped spans (.error error) ⟨none, behind⟩

theorem Skipped.cons {span : Span} {token : Form} {spans : List Span}
    {answer : Except ReadError Unit} {supply : Supply} (hToken : span.classify = .ok token)
    (hComment : token.isComment = true) (h : Skipped spans answer supply) :
    Skipped (span :: spans) answer supply := by
  cases h with
  | ended h => exact .ended (h.cons hToken hComment)
  | stopped h hSpans hNext hOther =>
      exact .stopped (h.cons hToken hComment) (congrArg (span :: ·) hSpans) hNext hOther
  | failed h hSpans hFault =>
      exact .failed (h.cons hToken hComment) (congrArg (span :: ·) hSpans) hFault

theorem skipped_skipCommentsIn (reader : Reader) (spans : List Span) :
    Skipped spans (reader.skipCommentsIn spans).1 (reader.skipCommentsIn spans).2.supply ∧
      (reader.skipCommentsIn spans).2.nesting = reader.nesting := by
  induction spans generalizing reader with
  | nil => exact ⟨.ended areComments_nil, rfl⟩
  | cons span rest ih =>
      rw [skipCommentsIn_cons]
      cases hMeaning : span.classify with
      | error error => exact ⟨.failed areComments_nil rfl hMeaning, rfl⟩
      | ok token =>
          dsimp only
          cases hComment : token.isComment with
          | true =>
              obtain ⟨hSkipped, hNesting⟩ := ih
                { reader with pending := rest, held := none, reached := span.stop.toNat }
              exact ⟨hSkipped.cons hMeaning hComment, hNesting⟩
          | false =>
              exact ⟨.stopped areComments_nil rfl hMeaning hComment, rfl⟩

/-- From a reader that holds nothing. -/
theorem skipped_skipComments {reader : Reader} (h : reader.held = none) :
    Skipped reader.pending reader.skipComments.1 reader.skipComments.2.supply ∧
      reader.skipComments.2.nesting = reader.nesting := by
  have hSkip : reader.skipComments = reader.skipCommentsIn reader.pending := by
    rw [skipComments_def, h]
  rw [hSkip]
  exact skipped_skipCommentsIn reader reader.pending

/-- The answer for a form that has been read, if nothing but comments is left. -/
def closeAfter (reader : Reader) (form : Form) : Except ReadError Form := do
  let (skipped, reader) := reader.skipComments
  skipped
  match ← reader.peek.1 with
  | none => return form
  | some (_, span) => throw (StructureFault.trailingInput.atSpan span)

/-- Behind the comments at the beginning, the only form is read and nothing may follow. -/
theorem readSingle_of_skipComments {reader left : Reader} {item : Form × Span}
    (hSkip : reader.skipComments = (.ok (), left)) (hHeld : left.held = some item) :
    reader.readSingle =
      left.readForm.1 >>= fun form => left.readForm.2.closeAfter form := by
  unfold readSingle
  rw [hSkip]
  simp only [eof_of_held hHeld]
  rfl

/-- What may come of closing after a form. -/
inductive Closed (spans : List Span) (form : Form) : Except ReadError Form → Prop where
  | form (h : AreComments spans) : Closed spans form (.ok form)
  | trailing {comments behind : List Span} {span : Span} {token : Form} (h : AreComments comments)
      (hSpans : spans = comments ++ span :: behind) (hToken : span.classify = .ok token)
      (hOther : token.isComment = false) :
      Closed spans form (.error (StructureFault.trailingInput.atSpan span))
  | failed {comments behind : List Span} {span : Span} {error : ReadError}
      (h : AreComments comments) (hSpans : spans = comments ++ span :: behind)
      (hFault : span.classify = .error error) : Closed spans form (.error error)

theorem closed_closeAfter {reader : Reader} (hHeld : reader.held = none) (form : Form) :
    Closed reader.pending form (reader.closeAfter form) := by
  obtain ⟨hSkipped, -⟩ := skipped_skipComments hHeld
  unfold closeAfter
  generalize reader.skipComments = skipping at hSkipped
  obtain ⟨answer, left⟩ := skipping
  generalize hSupply : left.supply = supply at hSkipped
  cases hSkipped with
  | ended h =>
      obtain ⟨hNone, hPending⟩ := Supply.mk.inj hSupply
      have hPeek : left.peek.1 = .ok none := by rw [peek_def, hNone, hPending]
      simp only [hPeek]
      exact .form h
  | @stopped comments behind span token h hSpans hToken hOther =>
      obtain ⟨hNext, -⟩ := Supply.mk.inj hSupply
      have hPeek : left.peek.1 = .ok (some (token, span)) := by rw [peek_of_held hNext]
      simp only [hPeek]
      exact .trailing h hSpans hToken hOther
  | failed h hSpans hFault => exact .failed h hSpans hFault

/-- What may come of reading a form, and what is left behind it. -/
inductive Begun (nesting : Nesting) (spans : List Span) :
    Except ReadError Form × Reader → Prop where
  | refused {left : Reader} {error : ReadError}
      (hRun : Assembly.conclude false (Assembly.empty.run nesting spans) = .error error) :
      Begun nesting spans (.error error, left)
  | found {first : List Span} {form : Form} {left : Reader} (hHeld : left.held = none)
      (hSpans : spans = first ++ left.pending)
      (hRun : Assembly.empty.run nesting first = .ok ⟨[], [form]⟩) :
      Begun nesting spans (.ok form, left)

theorem begun_readForm {reader : Reader} {token : Form} {span : Span}
    (hHeld : reader.held = some (token, span)) (hToken : span.classify = .ok token) :
    Begun reader.nesting (span :: reader.pending) reader.readForm := by
  have hFirst : Assembly.FirstForm reader.nesting .empty (span :: reader.pending)
      (Assembly.empty.feed reader.nesting (fun assembly => assembly.frames.isEmpty)
        (span :: reader.pending)) := Assembly.firstForm_feed ..
  rw [readForm_def, reader.drive_eq_feed hHeld hToken]
  generalize Assembly.feed _ _ _ _ = feeding at hFirst ⊢
  cases hFirst with
  | refused hRun => exact .refused (congrArg _ hRun)
  | @unfinished frames hRun hOpen =>
      cases frames with
      | nil => exact absurd rfl (hOpen (List.cons_ne_nil _ _))
      | cons frame outer => exact .refused (congrArg _ hRun)
  | found hSpans hRun => exact .found rfl hSpans hRun

end Reader

section Outcome

variable {text : List Char} {comments first behind : List Span} {span : Span} {token form : Form}
  {error : ReadError}

/-- Where comments are dropped, they may be left out before reading. -/
theorem readText_of_thinned {others : List Span} (h : Thinned .inPlace (scan text) others) :
    readText text = Assembly.conclude false
      (Assembly.empty.run { base := 0, limit := Reader.defaultMaxDepth } others) := by
  rw [← Assembly.conclude_run_thinned _ h]
  exact readText_eq_conclude text false _

theorem inPlace_self (span : Span) : Similarity.inPlace.span span span :=
  ⟨rfl, rfl⟩

theorem thinned_of_comments {spans others : List Span} (hComments : AreComments comments)
    (hSpans : spans = comments ++ others) : Thinned .inPlace spans others :=
  hSpans ▸ .comments_append hComments (.refl inPlace_self others)

/-- Behind lexemes that are accepted, reading fails at one that has no meaning. -/
theorem readText_of_fault {before : List Span} {assembly : Assembly}
    (h : Thinned .inPlace (scan text) (before ++ span :: behind))
    (hRun : Assembly.empty.run { base := 0, limit := Reader.defaultMaxDepth } before =
      .ok assembly) (hFault : span.classify = .error error) : readText text = .error error := by
  rw [readText_of_thinned h, Assembly.run_append_of_eq_ok hRun, Assembly.run_cons,
    Assembly.acceptSpan, hFault]
  rfl

/-- A form has been read, and then the text is closed. -/
theorem soleOutcome_of_closed {answer : Except ReadError Form} (hComments : AreComments comments)
    (hScan : scan text = comments ++ (first ++ behind)) {tokens : List Form}
    {derivation : Derivation} (hTokens : Classified first tokens)
    (hWord : withoutComments tokens = derivation.word)
    (hRun : Assembly.empty.run { base := 0, limit := Reader.defaultMaxDepth } first =
      .ok ⟨[], [derivation.value]⟩)
    (hClosed : Reader.Closed behind derivation.value answer) : SoleOutcome text answer := by
  have hThinned {others : List Span} (h : Thinned .inPlace behind others) :
      Thinned .inPlace (scan text) (first ++ others) :=
    hScan ▸ .comments_append hComments (h.append_left inPlace_self first)
  cases hClosed with
  | form h =>
      have hNone : Thinned .inPlace behind [] := thinned_of_comments h (by simp)
      refine .form ?_
      rw [readText_of_thinned (hThinned hNone), List.append_nil, hRun]
      exact congrArg Except.ok (withoutComments_values [derivation])
  | trailing h hSpans hToken hOther =>
      refine .trailing ?_
      rw [hScan, hSpans]
      exact .comments_append hComments (.intro hTokens hWord h hToken hOther)
  | failed h hSpans hFault =>
      exact .failed (readText_of_fault (hThinned (thinned_of_comments h hSpans)) hRun hFault)

/-- Behind the comments at the beginning a form is read, and then the text is closed. -/
theorem soleOutcome_of_stopped {left : Reader} (hComments : AreComments comments)
    (hScan : scan text = comments ++ span :: left.pending)
    (hNesting : left.nesting = { base := 0, limit := Reader.defaultMaxDepth })
    (hHeld : left.held = some (token, span)) (hToken : span.classify = .ok token)
    (hOther : token.isComment = false) :
    SoleOutcome text
      (left.readForm.1 >>= fun form => left.readForm.2.closeAfter form) := by
  have hBegun := Reader.begun_readForm hHeld hToken
  rw [hNesting] at hBegun
  generalize left.readForm = reading at hBegun ⊢
  generalize left.pending = behind at hScan hBegun
  cases hBegun with
  | refused hRun =>
      exact .failed ((readText_of_thinned (thinned_of_comments hComments hScan)).trans hRun)
  | @found first form left hNone hFirst hRun =>
      cases first with
      | nil => cases hRun
      | cons first others =>
          obtain ⟨rfl, rfl⟩ := List.cons.inj hFirst
          obtain ⟨tokens, derivation, hTokens, hWord, rfl⟩ :=
            Assembly.exists_derivation_of_run Reader.allows_zero hToken hOther hRun
          exact soleOutcome_of_closed hComments hScan hTokens hWord hRun
            (Reader.closed_closeAfter hNone _)

end Outcome

/-- What comes of reading the only form of a text is settled by what comes of reading all of its
forms, unless there is something behind the first one. -/
theorem soleOutcome (text : List Char) : SoleOutcome text (readForm text) := by
  generalize hReader : Reader.ofText text false Reader.defaultMaxDepth = reader
  have hFresh : reader.held = none := hReader ▸ rfl
  obtain ⟨hSkipped, hNesting⟩ := Reader.skipped_skipComments hFresh
  have hPending : reader.pending = scan text := hReader ▸ rfl
  have hStart : reader.nesting = { base := 0, limit := Reader.defaultMaxDepth } := hReader ▸ rfl
  rw [hPending] at hSkipped
  rw [readForm, hReader]
  generalize hSkip : reader.skipComments = skipping at hSkipped hNesting
  obtain ⟨answer, left⟩ := skipping
  generalize hSupply : left.supply = supply at hSkipped
  cases hSkipped with
  | ended hComments =>
      have hEof : left.eof.1 = .ok true := by rw [Reader.eof_of_empty hSupply]
      have hNone : reader.readSingle = .error (.structural .noForm none) := by
        rw [Reader.readSingle, hSkip]
        simp only [hEof]
        rfl
      have hThinned : Thinned .inPlace (scan text) [] :=
        thinned_of_comments hComments (by simp)
      exact hNone ▸ .none (readText_of_thinned hThinned)
  | @failed comments behind span error hComments hSpans hFault =>
      have hFailed : reader.readSingle = .error error := by
        rw [Reader.readSingle, hSkip]
        rfl
      have hThinned : Thinned .inPlace (scan text) ([] ++ span :: behind) :=
        thinned_of_comments hComments hSpans
      exact hFailed ▸ .failed (readText_of_fault hThinned rfl hFault)
  | stopped hComments hSpans hToken hOther =>
      obtain ⟨hHeld, rfl⟩ := Supply.mk.inj hSupply
      rw [Reader.readSingle_of_skipComments hSkip hHeld]
      exact soleOutcome_of_stopped hComments hSpans (hNesting.trans hStart) hHeld hToken hOther

/-- A lexeme that stands behind the first form begins another one, if all forms are read. -/
theorem BehindFirstForm.two_le_length {text : List Char} {span : Span}
    (h : BehindFirstForm (scan text) span) {forms : List Form}
    (hRead : readText text = .ok forms) : 2 ≤ forms.length := by
  obtain ⟨last, hRun, hClosed, rfl⟩ := readText_eq_ok_iff.mp hRead
  obtain ⟨tokens, hTokens⟩ := exists_classified_of_run hRun
  obtain ⟨derivations, hWords, -, hValues⟩ :=
    exists_derivations_of_run Reader.allows_zero hTokens hRun hClosed
  generalize scan text = spans at h hTokens
  cases h with
  | @intro first comments behind _ own derivation token hFirst hWord hComments hToken hOther =>
      obtain ⟨passed, hPassed, hNone⟩ := hComments.exists_classified
      obtain ⟨others, rfl, hOthers⟩ := hTokens.append_left hFirst
      obtain ⟨rest, rfl, hRest⟩ := hOthers.append_left hPassed
      obtain ⟨next, more, hNext, -, rfl⟩ := List.forall₂_cons_left_iff.mp hRest
      obtain rfl : token = next := Except.ok.inj (hToken.symm.trans hNext)
      rw [withoutComments_append, withoutComments_append, hWord, hNone, List.nil_append,
        withoutComments_cons hOther] at hWords
      have hForms : last.forms.reverse.filter (fun form => false || !form.isComment) =
          values derivations := by
        have hReversed := congrArg List.reverse hValues
        rwa [← withoutComments_reverse, List.reverse_reverse] at hReversed
      rw [hForms]
      -- The word of the first form is cut off in one way only, so there is a form behind it.
      rcases derivations with _ | ⟨only, _ | ⟨second, further⟩⟩
      · simp [words] at hWords
      · have hEnd := (Derivation.word_append_inj hWords).2
        cases hEnd
      · simp [values]

/-- Reading the only form of a text is reading all of its forms, where there is one. Where there is
none, that is said without a place, and where there are more, what follows the first one is
refused. -/
theorem readForm_eq_ok_iff_singleton (text : List Char) :
    (∀ form, readForm text = .ok form ↔ readText text = .ok [form]) ∧
    (readText text = .ok [] → readForm text = .error (.structural .noForm none)) ∧
    (∀ first second others, readText text = .ok (first :: second :: others) →
      ∃ span ∈ scan text, readForm text = .error (StructureFault.trailingInput.atSpan span)) := by
  have hOutcome := soleOutcome text
  generalize readForm text = answer at hOutcome
  cases hOutcome with
  | form hRead | none hRead | failed hRead => simp [hRead]
  | @trailing span hBehind =>
      have hLong {forms : List Form} (hRead : readText text = .ok forms) : 2 ≤ forms.length :=
        hBehind.two_le_length hRead
      refine ⟨fun form => ⟨nofun, fun hRead => ?_⟩, fun hRead => ?_, ?_⟩
      · exact absurd (hLong hRead) (by simp)
      · exact absurd (hLong hRead) (by simp)
      · intro first second others _
        exact ⟨span, hBehind.mem, rfl⟩

theorem readForm_eq_ok_iff_singleton_of_comments :
    (readText [';', '\n', 'a'] = .ok [.symbol (.text "a")] ∧
      readForm [';', '\n', 'a'] = .ok (.symbol (.text "a"))) ∧
    (readText [';'] = .ok [] ∧ readForm [';'] = .error (.structural .noForm none)) ∧
    readText ['a', ' ', ';', '\n', '(', ')'] = .ok [.symbol (.text "a"), .emptyList] ∧
      ∃ span ∈ scan ['a', ' ', ';', '\n', '(', ')'],
        readForm ['a', ' ', ';', '\n', '(', ')'] =
          .error (StructureFault.trailingInput.atSpan span) := by
  have hOne : readText [';', '\n', 'a'] = .ok [.symbol (.text "a")] := by
    have hScan : scan [';', '\n', 'a'] =
        [⟨0, 1, [';', '\n', 'a']⟩, ⟨2, 3, [';', '\n', 'a']⟩] := by decide +kernel
    rw [readText_eq_conclude, hScan]
    rfl
  have hNone : readText [';'] = .ok [] := by
    have hScan : scan [';'] = [⟨0, 1, [';']⟩] := by decide +kernel
    rw [readText_eq_conclude, hScan]
    rfl
  have hTwo : readText ['a', ' ', ';', '\n', '(', ')'] =
      .ok [.symbol (.text "a"), .emptyList] := by
    generalize hText : ['a', ' ', ';', '\n', '(', ')'] = text
    have hScan : scan text = [⟨0, 1, text⟩, ⟨2, 3, text⟩, ⟨4, 5, text⟩, ⟨5, 6, text⟩] := by
      subst hText
      decide +kernel
    rw [readText_eq_conclude, hScan]
    subst hText
    rfl
  exact ⟨⟨hOne, ((readForm_eq_ok_iff_singleton _).1 _).mpr hOne⟩,
    ⟨hNone, (readForm_eq_ok_iff_singleton _).2.1 hNone⟩,
    hTwo, (readForm_eq_ok_iff_singleton _).2.2 _ _ _ hTwo⟩

end LispReader
