import LispReader.Proofs.Reader.Descent
import LispReader.Proofs.Reader.Level
import LispReader.Proofs.Reader.Sole

/-!
The count of open levels. A call that reads something gives back every level that it opens. A
failure leaves them open: the count has grown by the lists and the quote marks that are not finished
at the lexeme where the call has failed, and it is past the limit by one at most.
-/

namespace LispReader

open Reader (Outcome)

/-- Whether a fault lies in there being no more lexemes. -/
def StructureFault.isEnding : StructureFault → Bool
  | .endOfInput | .missing _ | .unterminatedList => true
  | _ => false

theorem Frame.exists_endOfInput (frame : Frame) :
    ∃ fault place, frame.endOfInput = .structural fault place ∧ fault.isEnding = true := by
  cases frame <;> exact ⟨_, _, rfl, rfl⟩

/-- Lexemes that have tokens mean them. -/
theorem Classified.map_classify {spans : List Span} {tokens : List Form}
    (h : Classified spans tokens) : spans.map Span.classify = tokens.map .ok := by
  induction h with
  | nil => rfl
  | cons hToken _ ih => rw [List.map_cons, List.map_cons, hToken, ih]

/-- Comments mean tokens that are comments. -/
theorem AreComments.exists_meanings {spans : List Span} (h : AreComments spans) :
    ∃ comments : List Form, (∀ comment ∈ comments, comment.isComment = true) ∧
      spans.map Span.classify = comments.map .ok := by
  obtain ⟨tokens, hTokens, hNone⟩ := h.exists_classified
  refine ⟨tokens, ?_, hTokens.map_classify⟩
  simpa [withoutComments, List.filter_eq_nil_iff] using hNone

namespace Assembly

variable {nesting : Nesting} {start next last : Assembly} {token : Form} {span : Span}
  {tokens : List Form}

/-- What tokens do to the levels of an assembly: they decide what is open, and they open nothing
that is not allowed. -/
structure Levels (nesting : Nesting) (start : Assembly) (tokens : List Form) (last : Assembly) :
    Prop where
  openings : last.frames.map Frame.opening =
    tokens.foldl Opening.after (start.frames.map Frame.opening)
  allowed : nesting.Allows start.frames.length → nesting.Allows last.frames.length

theorem Levels.refl (start : Assembly) : Levels nesting start [] start :=
  ⟨rfl, id⟩

theorem Levels.cons (h : Levels nesting next tokens last)
    (step : Step nesting start token span next) : Levels nesting start (token :: tokens) last where
  openings := by rw [h.openings, List.foldl_cons, step.map_opening]
  allowed hStart := h.allowed (step.allows hStart)

/-- From the empty assembly, a frame is open for each level that tokens have opened. -/
theorem Levels.length_eq (h : Levels nesting .empty tokens last) :
    last.frames.length = (Opening.ofTokens tokens).length := by
  rw [← List.length_map Frame.opening, h.openings]
  rfl

/-- How feeding stops, by the meanings of the lexemes that were there to be fed. -/
inductive Stops (nesting : Nesting) (start : Assembly) (ahead : List (Except ReadError Form)) :
    Feeding → Prop where
  | taken {tokens : List Form} {last : Assembly} {pending : List Span}
      (levels : Levels nesting start tokens last)
      (hAhead : ahead = tokens.map .ok ++ pending.map Span.classify) :
      Stops nesting start ahead { assembly := last, pending }
  | meaningless {tokens : List Form} {last : Assembly} {pending : List Span} {error : ReadError}
      (levels : Levels nesting start tokens last)
      (hAhead : ahead = tokens.map .ok ++ .error error :: pending.map Span.classify) :
      Stops nesting start ahead { assembly := last, pending, refusal := some { error } }
  | refused {tokens : List Form} {last : Assembly} {pending : List Span} {token : Form}
      {span : Span} {refusal : Refusal} (levels : Levels nesting start tokens last)
      (hRefuses : Refuses nesting last token span refusal)
      (hAhead : ahead = tokens.map .ok ++ .ok token :: pending.map Span.classify) :
      Stops nesting start ahead { assembly := last, pending, refusal := some refusal }

theorem Stops.cons {ahead : List (Except ReadError Form)} {feeding : Feeding}
    (h : Stops nesting next ahead feeding) (step : Step nesting start token span next) :
    Stops nesting start (.ok token :: ahead) feeding := by
  cases h with
  | taken levels hAhead => exact .taken (levels.cons step) (hAhead ▸ rfl)
  | meaningless levels hAhead => exact .meaningless (levels.cons step) (hAhead ▸ rfl)
  | refused levels hRefuses hAhead => exact .refused (levels.cons step) hRefuses (hAhead ▸ rfl)

theorem stops_feed (nesting : Nesting) (enough : Assembly → Bool) (start : Assembly)
    (spans : List Span) :
    Stops nesting start (spans.map Span.classify) (start.feed nesting enough spans) := by
  induction spans generalizing start with
  | nil => exact .taken (.refl start) rfl
  | cons span rest ih =>
      rw [feed_cons, acceptSpan, List.map_cons]
      cases hMeaning : span.classify with
      | error error => exact .meaningless (.refl start) rfl
      | ok token =>
          rw [acceptMeaning]
          cases hAccept : start.accept nesting token span with
          | error refusal => exact .refused (.refl start) (refuses_of_accept hAccept) rfl
          | ok next =>
              have step := accept_eq_ok_iff_step.mp hAccept
              dsimp only
              split
              · exact .taken (.cons (.refl next) step) rfl
              · exact (ih next).cons step

end Assembly

namespace Reader

/-- The meanings of the lexemes that are ahead of a reader. The one that is held comes first. -/
def ahead (reader : Reader) : List (Except ReadError Form) :=
  (reader.held.toList.map fun item => .ok item.1) ++ reader.pending.map Span.classify

theorem stops_drive (reader : Reader) (enough : Assembly → Bool) :
    Assembly.Stops reader.nesting .empty reader.ahead (reader.drive enough) := by
  rw [drive_def, ahead]
  cases reader.held with
  | none => exact Assembly.stops_feed reader.nesting enough .empty reader.pending
  | some item =>
      obtain ⟨token, span⟩ := item
      dsimp only
      cases hAccept : Assembly.empty.accept reader.nesting token span with
      | error refusal => exact .refused (.refl _) (Assembly.refuses_of_accept hAccept) rfl
      | ok next =>
          have step := Assembly.accept_eq_ok_iff_step.mp hAccept
          dsimp only
          split
          · exact .taken (.cons (.refl next) step) rfl
          · exact (Assembly.stops_feed reader.nesting enough next reader.pending).cons step

/-- Where a call has failed, and the tokens that have been taken up to there. What the failure says
decides between the end of the lexemes, a lexeme without a meaning, and a token that is not taken.
A token that opens a level too many is taken and opens it. -/
inductive FailsBehind (reader left : Reader) : ReadError → List Form → Prop where
  | ended {tokens : List Form} {fault : StructureFault} {place : Option Text.Position}
      (hFault : fault.isEnding = true) (hAhead : reader.ahead = tokens.map .ok)
      (hLeft : left.ahead = []) : FailsBehind reader left (.structural fault place) tokens
  | meaningless {tokens : List Form} {error : ReadError}
      (hAhead : reader.ahead = tokens.map .ok ++ .error error :: left.pending.map Span.classify) :
      FailsBehind reader left error tokens
  | refused {tokens : List Form} {token : Form} {fault : StructureFault}
      {place : Option Text.Position} (hFault : fault.isEnding = false)
      (hShallow : ∀ limit, fault ≠ .tooDeep limit)
      (hAhead : reader.ahead = tokens.map .ok ++ .ok token :: left.pending.map Span.classify) :
      FailsBehind reader left (.structural fault place) tokens
  | tooDeep {tokens : List Form} {token : Form} {limit : Int} {place : Option Text.Position}
      (hOpens : token.opens = true)
      (hAhead : reader.ahead = tokens.map .ok ++ .ok token :: left.pending.map Span.classify) :
      FailsBehind reader left (.structural (.tooDeep limit) place) (tokens ++ [token])

/-- What a call leaves of the count of open levels: what it was, after an answer; after a failure,
one more for each list and each quote mark that the call has opened and not finished. -/
structure CountsLevels {α : Type} (reader : Reader) (outcome : Outcome α) : Prop where
  restored : ∀ answer, outcome.1 = .ok answer → outcome.2.depth = reader.depth
  leftOpen : ∀ error, outcome.1 = .error error →
    ∃ tokens, FailsBehind reader outcome.2 error tokens ∧
      outcome.2.depth = reader.depth + (Opening.ofTokens tokens).length
  bounded : (reader.depth : Int) ≤ reader.maxDepth → (outcome.2.depth : Int) ≤ reader.maxDepth + 1

variable {α : Type} {reader left : Reader} {feeding : Feeding}

theorem CountsLevels.of_ok (answer : α) (hDepth : left.depth = reader.depth) :
    CountsLevels reader ((.ok answer, left) : Outcome α) where
  restored _ _ := hDepth
  leftOpen := nofun
  bounded hStart := by
    rw [hDepth]
    omega

theorem CountsLevels.of_error {error : ReadError} {tokens : List Form}
    (hFails : FailsBehind reader left error tokens)
    (hDepth : left.depth = reader.depth + (Opening.ofTokens tokens).length)
    (hBound : (reader.depth : Int) ≤ reader.maxDepth → (left.depth : Int) ≤ reader.maxDepth + 1) :
    CountsLevels reader ((.error error, left) : Outcome α) where
  restored := nofun
  leftOpen other hOther := by
    cases hOther
    exact ⟨tokens, hFails, hDepth⟩
  bounded := hBound

theorem nesting_allows_iff {levels : Nat} :
    reader.nesting.Allows levels ↔ (reader.depth : Int) + levels ≤ reader.maxDepth := Iff.rfl

/-- What is allowed stays within the limit, and one level more is past it by one. -/
theorem depth_le_of_levels {tokens : List Form} {last : Assembly} {opened : Nat}
    (levels : Assembly.Levels reader.nesting .empty tokens last) (hOpened : opened ≤ 1)
    (hDepth : left.depth = reader.depth + last.frames.length + opened) :
    (reader.depth : Int) ≤ reader.maxDepth → (left.depth : Int) ≤ reader.maxDepth + 1 := by
  intro hStart
  have hAllowed := levels.allowed (nesting_allows_iff.mpr (by simpa [Assembly.empty] using hStart))
  rw [nesting_allows_iff] at hAllowed
  omega

/-- Where a lexeme is refused, the frames that are open count, and so does a level that is opened
beyond the limit. -/
theorem countsLevels_of_refusal {refusal : Refusal}
    (h : Assembly.Stops reader.nesting .empty reader.ahead feeding)
    (hRefusal : feeding.refusal = some refusal) :
    CountsLevels reader ((.error refusal.error, reader.after feeding) : Outcome α) := by
  cases h with
  | taken => cases hRefusal
  | meaningless levels hAhead =>
      cases hRefusal
      refine .of_error (.meaningless hAhead) ?_ (depth_le_of_levels levels (Nat.zero_le 1) rfl)
      exact congrArg (reader.depth + ·) levels.length_eq
  | @refused tokens last pending token span refusal levels hRefuses hAhead =>
      obtain rfl : _ = refusal := Option.some.inj hRefusal.symm
      have hFrames := congrArg (reader.depth + ·) levels.length_eq
      cases hRefuses with
      | tooDeep opens =>
          have hOpens : token.opens = true := by
            rcases opens with rfl | ⟨operator, rfl⟩ <;> rfl
          refine .of_error (.tooDeep hOpens hAhead) ?_ (depth_le_of_levels levels le_rfl rfl)
          rw [Opening.ofTokens_concat, Opening.length_after_of_opens hOpens]
          exact congrArg (· + 1) hFrames
      | unexpectedClose | strayDot | nothingBeforeDot | nothingAfterDot | severalAfterDot =>
          exact .of_error (.refused rfl nofun hAhead) hFrames
            (depth_le_of_levels levels (Nat.zero_le 1) rfl)

/-- Where the lexemes come to an end, the frames that are open count. -/
theorem countsLevels_of_ended {fault : StructureFault} {place : Option Text.Position}
    (h : Assembly.Stops reader.nesting .empty reader.ahead feeding)
    (hNone : feeding.refusal = none) (hPending : feeding.pending = [])
    (hFault : fault.isEnding = true) :
    CountsLevels reader
      ((.error (.structural fault place), (reader.after feeding).atEnd) : Outcome α) := by
  cases h with
  | meaningless | refused => cases hNone
  | taken levels hAhead =>
      obtain rfl : _ = [] := hPending
      rw [List.map_nil, List.append_nil] at hAhead
      refine .of_error (.ended hFault hAhead rfl) ?_ (depth_le_of_levels levels (Nat.zero_le 1) rfl)
      exact congrArg (reader.depth + ·) levels.length_eq

theorem countsLevels_readForm (reader : Reader) : CountsLevels reader reader.readForm := by
  have hStops := stops_drive reader fun assembly => assembly.frames.isEmpty
  have hForm := stopsAtForm_drive reader
  rw [readForm_def]
  generalize reader.drive _ = feeding at hStops hForm ⊢
  unfold formOf
  cases hRefusal : feeding.refusal with
  | some refusal => exact countsLevels_of_refusal hStops hRefusal
  | none =>
      rcases hForm hRefusal with ⟨hNone, hPending⟩ | ⟨form, hOnly⟩
      · rw [hNone]
        dsimp only
        cases hEnd : feeding.assembly.endOfInput? with
        | none => exact countsLevels_of_ended hStops hRefusal hPending rfl
        | some error =>
            obtain ⟨frame, -, rfl⟩ := Option.map_eq_some_iff.mp hEnd
            obtain ⟨fault, place, hError, hFault⟩ := frame.exists_endOfInput
            rw [Option.getD_some, hError]
            exact countsLevels_of_ended hStops hRefusal hPending hFault
      · rw [hOnly]
        refine .of_ok form ?_
        simp [after, hRefusal, hOnly]

theorem countsLevels_read (reader : Reader) : CountsLevels reader reader.read := by
  have hStops := stops_drive reader fun _ => false
  have hPending (h : (reader.drive fun _ => false).refusal = none) := pending_drive_never h
  rw [read_def]
  generalize reader.drive _ = feeding at hStops hPending ⊢
  unfold formsOf
  cases hRefusal : feeding.refusal with
  | some refusal => exact countsLevels_of_refusal hStops hRefusal
  | none =>
      cases hEnd : feeding.assembly.endOfInput? with
      | some error =>
          obtain ⟨frame, -, rfl⟩ := Option.map_eq_some_iff.mp hEnd
          obtain ⟨fault, place, hError, hFault⟩ := frame.exists_endOfInput
          rw [hError]
          exact countsLevels_of_ended hStops hRefusal (hPending hRefusal) hFault
      | none =>
          have hFrames : feeding.assembly.frames = [] :=
            List.head?_eq_none_iff.mp (Option.map_eq_none_iff.mp hEnd)
          refine .of_ok _ ?_
          simp [after, atEnd, hRefusal, hFrames]

/-- What comes of passing over the comments that are ahead of a reader. -/
inductive Passes (reader : Reader) : Outcome Unit → Prop where
  | ended {comments : List Form} {left : Reader}
      (hComments : ∀ comment ∈ comments, comment.isComment = true)
      (hNesting : left.nesting = reader.nesting) (hAhead : reader.ahead = comments.map .ok)
      (hNone : left.supply = ⟨none, []⟩) : Passes reader (.ok (), left)
  | stopped {comments : List Form} {left : Reader} {item : Form × Span}
      (hComments : ∀ comment ∈ comments, comment.isComment = true)
      (hNesting : left.nesting = reader.nesting)
      (hAhead : reader.ahead = comments.map .ok ++ left.ahead) (hHeld : left.held = some item) :
      Passes reader (.ok (), left)
  | failed {comments : List Form} {left : Reader} {error : ReadError}
      (hComments : ∀ comment ∈ comments, comment.isComment = true)
      (hNesting : left.nesting = reader.nesting)
      (hAhead : reader.ahead = comments.map .ok ++ .error error :: left.pending.map Span.classify) :
      Passes reader (.error error, left)

/-- The comments that are passed over stand behind others, which do not count either. -/
theorem Skipped.passes {front : List Form} {spans : List Span} {answer : Except ReadError Unit}
    (h : Skipped spans answer left.supply) (hFront : ∀ comment ∈ front, comment.isComment = true)
    (hNesting : left.nesting = reader.nesting)
    (hAhead : reader.ahead = front.map .ok ++ spans.map Span.classify) :
    Passes reader (answer, left) := by
  generalize hSupply : left.supply = supply at h
  have hBoth {comments : List Form} (hComments : ∀ comment ∈ comments, comment.isComment = true) :
      ∀ comment ∈ front ++ comments, comment.isComment = true :=
    List.forall_mem_append.mpr ⟨hFront, hComments⟩
  cases h with
  | ended hSkipped =>
      obtain ⟨comments, hComments, hMeanings⟩ := hSkipped.exists_meanings
      refine .ended (hBoth hComments) hNesting ?_ hSupply
      rw [hAhead, hMeanings, List.map_append]
  | stopped hSkipped hSpans hToken =>
      obtain ⟨comments, hComments, hMeanings⟩ := hSkipped.exists_meanings
      obtain ⟨hHeld, hPending⟩ := Supply.mk.inj hSupply
      refine .stopped (hBoth hComments) hNesting ?_ hHeld
      rw [hAhead]
      simp [hSpans, hMeanings, hToken, ahead, hHeld, hPending]
  | failed hSkipped hSpans hFault =>
      obtain ⟨comments, hComments, hMeanings⟩ := hSkipped.exists_meanings
      obtain ⟨-, hPending⟩ := Supply.mk.inj hSupply
      refine .failed (hBoth hComments) hNesting ?_
      simp [hAhead, hSpans, hMeanings, hFault, hPending]

theorem passes_skipComments (reader : Reader) : Passes reader reader.skipComments := by
  obtain ⟨hSkipped, hNesting⟩ := skipped_skipCommentsIn reader reader.pending
  rw [skipComments_def]
  cases hHeld : reader.held with
  | none =>
      refine hSkipped.passes (List.forall_mem_nil _) hNesting ?_
      simp [ahead, hHeld]
  | some item =>
      obtain ⟨token, span⟩ := item
      dsimp only
      split
      · next hComment =>
          refine hSkipped.passes (List.forall_mem_singleton.mpr hComment) hNesting ?_
          simp [ahead, hHeld]
      · exact .stopped (List.forall_mem_nil _) rfl rfl hHeld

/-- A failure behind tokens is one behind the comments in front of them, too. -/
theorem FailsBehind.prepend {between : Reader} {error : ReadError} {tokens comments : List Form}
    (h : FailsBehind between left error tokens)
    (hAhead : reader.ahead = comments.map .ok ++ between.ahead) :
    FailsBehind reader left error (comments ++ tokens) := by
  have hWhole {taken : List Form} {rest : List (Except ReadError Form)}
      (hTaken : between.ahead = taken.map .ok ++ rest) :
      reader.ahead = (comments ++ taken).map .ok ++ rest := by
    rw [hAhead, hTaken, List.map_append, List.append_assoc]
  cases h with
  | ended hFault hTokens hLeft =>
      exact .ended hFault (by rw [hAhead, hTokens, List.map_append]) hLeft
  | meaningless hTokens => exact .meaningless (hWhole hTokens)
  | refused hFault hShallow hTokens => exact .refused hFault hShallow (hWhole hTokens)
  | tooDeep hOpens hTokens =>
      rw [← List.append_assoc]
      exact .tooDeep hOpens (hWhole hTokens)

/-- Behind nothing but comments a failure leaves nothing open. -/
theorem CountsLevels.of_comments {error : ReadError} {comments : List Form}
    (hFails : FailsBehind reader left error comments)
    (hComments : ∀ comment ∈ comments, comment.isComment = true)
    (hNesting : left.nesting = reader.nesting) :
    CountsLevels reader ((.error error, left) : Outcome α) := by
  have hDepth : left.depth = reader.depth := (Nesting.mk.inj hNesting).1
  have hNone := Opening.ofTokens_comments_append hComments []
  rw [List.append_nil] at hNone
  refine .of_error hFails ?_ fun hStart => ?_
  · rw [hNone]
    exact hDepth
  · rw [hDepth]
    omega

/-- Comments that are passed over do not count. -/
theorem CountsLevels.prepend {between : Reader} {outcome : Outcome α} {comments : List Form}
    (h : CountsLevels between outcome)
    (hComments : ∀ comment ∈ comments, comment.isComment = true)
    (hNesting : between.nesting = reader.nesting)
    (hAhead : reader.ahead = comments.map .ok ++ between.ahead) :
    CountsLevels reader outcome := by
  obtain ⟨hDepth, hLimit⟩ := Nesting.mk.inj hNesting
  refine ⟨?_, ?_, ?_⟩
  · intro answer hAnswer
    exact (h.restored answer hAnswer).trans hDepth
  · intro error hError
    obtain ⟨tokens, hFails, hCount⟩ := h.leftOpen error hError
    refine ⟨comments ++ tokens, hFails.prepend hAhead, ?_⟩
    rw [Opening.ofTokens_comments_append hComments, ← hDepth]
    exact hCount
  · intro hStart
    rw [← hLimit]
    exact h.bounded (by rwa [hDepth, hLimit])

theorem countsLevels_readDatum (reader : Reader) (position : Text.Position) (notice : String) :
    CountsLevels reader (reader.readDatum position (.missing notice)) := by
  have hPasses := passes_skipComments reader
  unfold readDatum
  generalize reader.skipComments = skipping at hPasses
  cases hPasses with
  | @ended comments left hComments hNesting hAhead hNone =>
      simp only [eof_of_empty hNone]
      exact .of_comments (.ended rfl hAhead rfl) hComments hNesting
  | @stopped comments left item hComments hNesting hAhead hHeld =>
      simp only [eof_of_held hHeld]
      exact (countsLevels_readForm left).prepend hComments hNesting hAhead
  | failed hComments hNesting hAhead => exact .of_comments (.meaningless hAhead) hComments hNesting

/-- Whatever state a reader is in, reading a form, a datum or all forms comes to an end. It gives
back every level that it counts, and a failure leaves those counted that are not finished where it
has failed. The count is the one that the procedures raise and lower as they call one another. -/
theorem countsLevels_of_reading (reader : Reader) :
    (∃ outcome, Descent.ComesTo Descent.readForm reader outcome ∧ CountsLevels reader outcome) ∧
    (∀ position notice, ∃ outcome,
      Descent.ComesTo (fun calls => Descent.readDatum calls position (.missing notice)) reader
        outcome ∧ CountsLevels reader outcome) ∧
    (∃ outcome, Descent.ComesTo Descent.read reader outcome ∧ CountsLevels reader outcome) := by
  refine ⟨⟨_, Descent.comesTo_readForm reader, countsLevels_readForm reader⟩, ?_,
    ⟨_, Descent.comesTo_read reader, countsLevels_read reader⟩⟩
  intro position notice
  exact ⟨_, Descent.comesTo_readDatum reader position _,
    countsLevels_readDatum reader position notice⟩

theorem countsLevels_of_reading_beyond_limit :
    let text := ['(', 'a', ' ', '\'', '(']
    let reader := ofSpans [⟨0, 1, text⟩, ⟨1, 2, text⟩, ⟨3, 4, text⟩, ⟨4, 5, text⟩] false 2
    let error := .structural (.tooDeep 2) (some ⟨1, 4⟩)
    ∃ left, Descent.read 14 reader = some (.error error, left) ∧ left.depth = 3 ∧
      (left.depth : Int) ≤ reader.maxDepth + 1 ∧
      ∃ tokens, FailsBehind reader left error tokens ∧
        left.depth = reader.depth + (Opening.ofTokens tokens).length := by
  intro text reader error
  obtain ⟨-, -, outcome, hRead, hCounts⟩ := countsLevels_of_reading reader
  have hCalls : Descent.read 14 reader = some outcome := hRead 14 (by decide)
  have hFails : reader.read = (.error error, reader.read.2) := rfl
  obtain rfl : outcome = (.error error, reader.read.2) := by
    rw [Descent.comesTo_read reader 14 (by decide), hFails] at hCalls
    exact (Option.some.inj hCalls).symm
  exact ⟨reader.read.2, hCalls, rfl, hCounts.bounded (by decide), hCounts.leftOpen error rfl⟩

end Reader

end LispReader
