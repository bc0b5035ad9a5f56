import LispReader.Proofs.Reader.Step

/-!
Feeding that starts in the middle. An assembly that has frames already is fed from a reader, first
with the lexeme that the reader holds. What feeding comes to, and the reader that it leaves behind,
do not change if it is looked ahead first, or if comments inside a frame are passed over.
-/

namespace LispReader

open Reader (Outcome)

/-- A form in the place where a frame waits for one. A comment is dropped inside a frame. -/
def Assembly.receive (forms : List Form) (form : Form) (frames : List Frame) : Assembly :=
  if form.isComment && !frames.isEmpty then ⟨frames, forms⟩ else deliver forms form frames

/-- Whether feeding goes on as long as a frame is open. -/
def Patient (enough : Assembly → Bool) : Prop :=
  ∀ assembly : Assembly, assembly.frames ≠ [] → enough assembly = false

theorem patient_isEmpty : Patient fun assembly => assembly.frames.isEmpty := by
  intro assembly hOpen
  rwa [List.isEmpty_eq_false_iff]

theorem patient_never : Patient fun _ => false :=
  fun _ _ => rfl

namespace Reader

/-- Feeds an assembly with what is pending, unless it has enough. -/
def driveOn (reader : Reader) (enough : Assembly → Bool) (start : Assembly) : Feeding :=
  if enough start then { assembly := start, pending := reader.pending }
  else start.feed reader.nesting enough reader.pending

/-- Feeds an assembly, first with the lexeme that is held. -/
def driveFrom (reader : Reader) (enough : Assembly → Bool) (start : Assembly) : Feeding :=
  match reader.held with
  | none => start.feed reader.nesting enough reader.pending
  | some (token, span) =>
    match start.accept reader.nesting token span with
    | .error refusal =>
      { assembly := start, pending := reader.pending, refusal := some refusal }
    | .ok next => reader.driveOn enough next

theorem drive_eq_driveFrom (reader : Reader) (enough : Assembly → Bool) :
    reader.drive enough = reader.driveFrom enough .empty := rfl

/-- How a call fails that feeds: a lexeme is refused, or the lexemes come to an end inside a
frame. -/
def failure? (reader : Reader) (feeding : Feeding) : Option (ReadError × Reader) :=
  match feeding.refusal with
  | some refusal => some (refusal.error, reader.after feeding)
  | none =>
    feeding.assembly.endOfInput?.map fun error => (error, (reader.after feeding).atEnd)

/-- The reader with the levels counted that frames have opened. -/
def inside (reader : Reader) (frames : List Frame) : Reader :=
  { reader with depth := reader.depth + frames.length }

/-- The number of lexemes that have not been used. -/
def remaining (reader : Reader) : Nat :=
  reader.held.toList.length + reader.pending.length

/-- The reader after it has used the lexeme that it holds. -/
def release (reader : Reader) : Reader :=
  { reader with held := none }

/-- A reader that has come from another by taking lexemes: what feeding leaves behind is the same
for both. -/
structure Behind (reader left : Reader) : Prop where
  nesting_eq : left.nesting = reader.nesting
  keepComments_eq : left.keepComments = reader.keepComments
  pending_suffix : left.pending <:+ reader.pending
  after_eq : ∀ feeding : Feeding, feeding.pending <:+ left.pending →
    left.after feeding = reader.after feeding

variable {reader between left : Reader} {start next : Assembly} {enough : Assembly → Bool}
  {token : Form} {span : Span} {frames : List Frame} {forms : List Form}

theorem Behind.refl (reader : Reader) : reader.Behind reader :=
  ⟨rfl, rfl, List.suffix_rfl, fun _ _ => rfl⟩

theorem Behind.trans (h : reader.Behind between) (hLeft : between.Behind left) :
    reader.Behind left where
  nesting_eq := hLeft.nesting_eq.trans h.nesting_eq
  keepComments_eq := hLeft.keepComments_eq.trans h.keepComments_eq
  pending_suffix := hLeft.pending_suffix.trans h.pending_suffix
  after_eq feeding hPending := (hLeft.after_eq feeding hPending).trans
    (h.after_eq feeding (hPending.trans hLeft.pending_suffix))

theorem behind_release (reader : Reader) : reader.Behind reader.release :=
  ⟨rfl, rfl, List.suffix_rfl, fun _ _ => rfl⟩

/-- The reader after a lexeme is taken from those that are pending. -/
def pull (reader : Reader) (span : Span) (rest : List Span) : Reader :=
  { reader with pending := rest, held := none, reached := span.stop.toNat }

theorem behind_pull {rest : List Span} (h : reader.pending = span :: rest) :
    reader.Behind (reader.pull span rest) where
  nesting_eq := rfl
  keepComments_eq := rfl
  pending_suffix := h ▸ List.suffix_cons span rest
  after_eq feeding hPending := by
    obtain ⟨taken, hTaken⟩ := hPending
    obtain rfl : taken ++ feeding.pending = rest := hTaken
    have hWhole : reader.pending = (span :: taken) ++ feeding.pending := h
    have hAll (front : List Span) :
        (front ++ feeding.pending).take ((front ++ feeding.pending).length -
          feeding.pending.length) = front := by
      simp
    simp only [after, hWhole, hAll, pull]
    cases hLast : taken.getLast? <;> simp [List.getLast?_cons, hLast]

/-- The reader after it has looked at a lexeme. -/
def hold (reader : Reader) (token : Form) (span : Span) : Reader :=
  { reader with held := some (token, span) }

theorem behind_hold (reader : Reader) (token : Form) (span : Span) :
    reader.Behind (reader.hold token span) :=
  ⟨rfl, rfl, List.suffix_rfl, fun _ _ => rfl⟩

theorem pending_feed_suffix (nesting : Nesting) (enough : Assembly → Bool) (start : Assembly)
    (spans : List Span) : (start.feed nesting enough spans).pending <:+ spans := by
  induction spans generalizing start with
  | nil => exact List.suffix_rfl
  | cons span rest ih =>
      rw [Assembly.feed_cons]
      split
      · exact List.suffix_cons span rest
      · split
        · exact List.suffix_cons span rest
        · exact (ih _).trans (List.suffix_cons span rest)

theorem pending_driveFrom_suffix (reader : Reader) (enough : Assembly → Bool) (start : Assembly) :
    (reader.driveFrom enough start).pending <:+ reader.pending := by
  unfold driveFrom driveOn
  split
  · exact pending_feed_suffix _ _ _ _
  · split
    · exact List.suffix_rfl
    · split
      · exact List.suffix_rfl
      · exact pending_feed_suffix _ _ _ _

/-- Feeding that stops at once leaves the reader as it is, with the levels counted that are open. -/
theorem after_of_pending (reader : Reader) (start : Assembly) (refusal : Option Refusal) :
    reader.after { assembly := start, pending := reader.pending, refusal } =
      { reader.inside start.frames with
        held := refusal.bind fun refusal => refusal.held
        depth := reader.depth + start.frames.length +
          (refusal.map fun refusal => refusal.opened).getD 0 } := by
  simp [after, inside]

/-- Where no frame is open and nothing is held, the reader is left as it is. -/
theorem after_of_finished (hHeld : reader.held = none) (forms : List Form) :
    reader.after { assembly := ⟨[], forms⟩, pending := reader.pending } = reader := by
  obtain ⟨pending, held, depth, keepComments, maxDepth, reached, ending⟩ := reader
  obtain rfl : held = none := hHeld
  exact after_of_pending _ ⟨[], forms⟩ none

/-- How a call fails that feeds an assembly. -/
def failureFrom (reader : Reader) (enough : Assembly → Bool) (start : Assembly) :
    Option (ReadError × Reader) :=
  reader.failure? (reader.driveFrom enough start)

/-- What a look at the next lexeme comes to, and what feeding an assembly comes to then. -/
inductive Peeks (reader : Reader) : Outcome (Option (Form × Span)) → Prop where
  | ended (hDrive : ∀ enough start,
        reader.driveFrom enough start = { assembly := start, pending := [] }) :
      Peeks reader (.ok none, reader.atEnd)
  | held {left : Reader} {item : Form × Span} (hBehind : reader.Behind left)
      (hHeld : left.held = some item) (hRemaining : left.remaining = reader.remaining)
      (hDrive : ∀ enough start, reader.driveFrom enough start = left.driveFrom enough start) :
      Peeks reader (.ok (some item), left)
  | failed {left : Reader} {error : ReadError}
      (hFails : ∀ enough start,
        reader.failureFrom enough start = some (error, left.inside start.frames)) :
      Peeks reader (.error error, left)

theorem peeks_peek (reader : Reader) : reader.Peeks reader.peek := by
  rw [peek_def]
  cases hHeld : reader.held with
  | some item => exact .held (.refl reader) hHeld rfl fun _ _ => rfl
  | none =>
      cases hPending : reader.pending with
      | nil =>
          refine .ended fun enough start => ?_
          rw [driveFrom, hHeld, hPending]
          rfl
      | cons span rest =>
          dsimp only
          cases hMeaning : span.classify with
          | error error =>
              refine .failed fun enough start => ?_
              have hDrive : reader.driveFrom enough start =
                  { assembly := start, pending := rest, refusal := some { error } } := by
                rw [driveFrom, hHeld, hPending]
                dsimp only
                rw [Assembly.feed_cons, Assembly.acceptSpan, hMeaning]
                rfl
              have hLeft : reader.after ⟨start, rest, some { error }⟩ =
                  (reader.pull span rest).inside start.frames := by
                rw [← (behind_pull hPending).after_eq ⟨start, rest, some { error }⟩
                  List.suffix_rfl]
                exact after_of_pending (reader.pull span rest) start (some { error })
              rw [failureFrom, hDrive, failure?, hLeft]
              rfl
          | ok token =>
              refine .held ((behind_pull hPending).trans (behind_hold _ token span)) rfl ?_ ?_
              · simp [remaining, hHeld, hPending, Nat.add_comm]
              · intro enough start
                rw [driveFrom, hHeld, hPending]
                dsimp only
                rw [Assembly.feed_cons, Assembly.acceptSpan, hMeaning]
                rfl

/-- A held lexeme that is accepted is the first to be fed. -/
theorem driveFrom_of_accept (hHeld : reader.held = some (token, span))
    (hAccept : start.accept reader.nesting token span = .ok next) (enough : Assembly → Bool) :
    reader.driveFrom enough start = reader.driveOn enough next := by
  rw [driveFrom, hHeld]
  dsimp only
  rw [hAccept]

/-- Inside a frame feeding goes on. -/
theorem driveOn_of_open (hPatient : Patient enough) (hOpen : next.frames ≠ []) :
    reader.driveOn enough next = reader.release.driveFrom enough next := by
  rw [driveOn, hPatient next hOpen]
  rfl

theorem failureFrom_of_refused {refusal : Refusal} (hHeld : reader.held = some (token, span))
    (hAccept : start.accept reader.nesting token span = .error refusal)
    (enough : Assembly → Bool) :
    reader.failureFrom enough start = some (refusal.error,
      { reader.inside start.frames with
        held := refusal.held
        depth := reader.depth + start.frames.length + refusal.opened }) := by
  rw [failureFrom, driveFrom, hHeld]
  dsimp only
  rw [hAccept]
  dsimp only
  rw [failure?, after_of_pending]
  rfl

theorem failureFrom_of_ended {frame : Frame} {outer : List Frame}
    (hFrames : start.frames = frame :: outer)
    (hDrive : reader.driveFrom enough start = { assembly := start, pending := [] }) :
    reader.failureFrom enough start =
      some (frame.endOfInput, (reader.inside start.frames).atEnd) := by
  rw [failureFrom, hDrive, failure?, Assembly.endOfInput?, hFrames]
  simp [after, atEnd, inside, hFrames]

/-- From a reader that comes behind, a failure is the same. -/
theorem Behind.failureFrom_eq (h : reader.Behind left)
    (hDrive : reader.driveFrom enough start = left.driveFrom enough next) :
    reader.failureFrom enough start = left.failureFrom enough next := by
  have hSuffix := pending_driveFrom_suffix left enough next
  rw [failureFrom, failureFrom, hDrive, failure?, failure?, h.after_eq _ hSuffix]

theorem remaining_release (hHeld : reader.held = some (token, span)) :
    reader.release.remaining + 1 = reader.remaining := by
  simp [remaining, release, hHeld, Nat.add_comm]

/-- What is held makes no difference to passing over what is pending. -/
theorem skipCommentsIn_release (reader : Reader) (spans : List Span) :
    reader.release.skipCommentsIn spans = reader.skipCommentsIn spans := by
  cases spans <;> rfl

/-- To pass over comments is to look at a lexeme, and to use it and go on if it is a comment. -/
theorem skipComments_eq_loop (reader : Reader) :
    reader.skipComments =
      match reader.peek with
      | (.error error, left) => (.error error, left)
      | (.ok none, left) => (.ok (), left)
      | (.ok (some (token, _)), left) =>
        if token.isComment then left.release.skipComments else (.ok (), left) := by
  rw [skipComments_def, peek_def]
  cases hHeld : reader.held with
  | some item =>
      obtain ⟨token, span⟩ := item
      exact if_congr Iff.rfl (skipCommentsIn_release reader reader.pending).symm rfl
  | none =>
      cases hPending : reader.pending with
      | nil => rfl
      | cons span rest =>
          dsimp only
          rw [skipCommentsIn_cons]
          cases span.classify <;> rfl

theorem remaining_peek_le (reader : Reader) : reader.peek.2.remaining ≤ reader.remaining := by
  rw [peek_def]
  cases hHeld : reader.held with
  | some item => exact Nat.le_refl _
  | none =>
      cases hPending : reader.pending with
      | nil => exact Nat.zero_le _
      | cons span rest =>
          dsimp only
          cases span.classify <;> simp [remaining, hHeld, hPending, Nat.add_comm]

theorem remaining_eof_le (reader : Reader) : reader.eof.2.remaining ≤ reader.remaining := by
  have hPeek := reader.remaining_peek_le
  rw [eof_def]
  generalize reader.peek = outcome at hPeek
  obtain ⟨_ | _, left⟩ := outcome <;> exact hPeek

theorem remaining_skipComments_le (reader : Reader) :
    reader.skipComments.2.remaining ≤ reader.remaining := by
  induction hCount : reader.remaining using Nat.strongRecOn generalizing reader with
  | ind count ih =>
  have hPeeks := reader.peeks_peek
  have hPeek := reader.remaining_peek_le
  rw [skipComments_eq_loop]
  generalize reader.peek = outcome at hPeeks hPeek
  cases hPeeks with
  | ended | failed => exact hCount ▸ hPeek
  | @held left item _ hHeld hSame =>
      have hRelease := remaining_release hHeld
      dsimp only
      split
      · exact Nat.le_trans (ih left.release.remaining (by omega) left.release rfl) (by omega)
      · exact hCount ▸ hPeek

/-- What passing over comments inside a frame comes to, and what feeding comes to then. -/
inductive Skips (reader : Reader) (frame : Frame) (outer : List Frame) (forms : List Form) :
    Outcome Unit → Prop where
  | ended {left : Reader} (hPeek : left.peek = (.ok none, left))
      (hFails : ∀ enough, Patient enough →
        reader.failureFrom enough ⟨frame :: outer, forms⟩ =
          some (frame.endOfInput, left.inside (frame :: outer))) :
      Skips reader frame outer forms (.ok (), left)
  | stopped {left : Reader} {token : Form} {span : Span} (hBehind : reader.Behind left)
      (hHeld : left.held = some (token, span)) (hOther : token.isComment = false)
      (hRemaining : left.remaining ≤ reader.remaining)
      (hDrive : ∀ enough, Patient enough →
        reader.driveFrom enough ⟨frame :: outer, forms⟩ =
          left.driveFrom enough ⟨frame :: outer, forms⟩) :
      Skips reader frame outer forms (.ok (), left)
  | failed {left : Reader} {error : ReadError}
      (hFails : ∀ enough, Patient enough →
        reader.failureFrom enough ⟨frame :: outer, forms⟩ =
          some (error, left.inside (frame :: outer))) :
      Skips reader frame outer forms (.error error, left)

/-- Comments inside a frame are dropped. -/
theorem accept_comment (nesting : Nesting) {frame : Frame} {outer : List Frame}
    (hComment : token.isComment = true) :
    Assembly.accept nesting ⟨frame :: outer, forms⟩ token span = .ok ⟨frame :: outer, forms⟩ := by
  cases token with
  | comment depth text => cases frame <;> rfl
  | _ => cases hComment

theorem skips_skipComments (reader : Reader) (frame : Frame) (outer : List Frame)
    (forms : List Form) : reader.Skips frame outer forms reader.skipComments := by
  induction hCount : reader.remaining using Nat.strongRecOn generalizing reader with
  | ind count ih =>
  have hPeeks := reader.peeks_peek
  rw [skipComments_eq_loop]
  generalize reader.peek = outcome at hPeeks
  cases hPeeks with
  | ended hDrive => exact .ended rfl fun enough _ => failureFrom_of_ended rfl (hDrive enough _)
  | failed hFails => exact .failed fun enough _ => hFails enough _
  | @held left item hBehind hHeld hRemaining hDrive =>
      obtain ⟨token, span⟩ := item
      dsimp only
      split
      · next hComment =>
          have hRelease := remaining_release hHeld
          have hNext (enough : Assembly → Bool) (hPatient : Patient enough) :
              reader.driveFrom enough ⟨frame :: outer, forms⟩ =
                left.release.driveFrom enough ⟨frame :: outer, forms⟩ := by
            rw [hDrive, driveFrom_of_accept hHeld (accept_comment _ hComment),
              driveOn_of_open hPatient (List.cons_ne_nil _ _)]
          have hWhole := hBehind.trans (behind_release left)
          have hRest := ih left.release.remaining (by omega) left.release rfl
          generalize left.release.skipComments = outcome at hRest
          cases hRest with
          | ended hPeek hFails =>
              refine .ended hPeek fun enough hPatient => ?_
              rw [hWhole.failureFrom_eq (hNext enough hPatient), hFails enough hPatient]
          | failed hFails =>
              refine .failed fun enough hPatient => ?_
              rw [hWhole.failureFrom_eq (hNext enough hPatient), hFails enough hPatient]
          | stopped hRestBehind hRestHeld hOther hLess hRestDrive =>
              refine .stopped (hWhole.trans hRestBehind) hRestHeld hOther (by omega) ?_
              intro enough hPatient
              rw [hNext enough hPatient, hRestDrive enough hPatient]
      · next hOther =>
          refine .stopped hBehind hHeld (by simpa using hOther) (Nat.le_of_eq hRemaining) ?_
          intro enough _
          exact hDrive enough _

end Reader

end LispReader
