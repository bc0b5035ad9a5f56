import LispReader.Reader.Descent
import LispReader.Proofs.Reader.Feeding

/-!
Procedures of the descent against feeding. A procedure is entered with as many levels counted as
frames are open, and comes to an end: with the lexemes taken that are fed, and its answer where the
frames put it, or with the failure that stops the feeding. What is shown here is the case for the
parts that procedures are made of: a level is entered and left, comments are passed over, a lexeme
is used.

A procedure that uses a lexeme may call one inside the other up to three others before the next
lexeme is used, so three calls for each lexeme that is left are enough.
-/

namespace LispReader.Descent

open LispReader.Reader (Outcome Behind)

variable {α β : Type} {reader left : Reader} {frames outer : List Frame} {forms : List Form}
  {calls : Nat}

section

variable {action : Action α}

theorem bind_of_ok {answer : α} (h : action reader = some (.ok answer, left))
    (next : α → Action β) : (action >>= next) reader = next answer left := by
  change (action reader >>= fun outcome => _) = _
  rw [h]
  rfl

theorem bind_of_error {error : ReadError} (h : action reader = some (.error error, left))
    (next : α → Action β) : (action >>= next) reader = some (.error error, left) := by
  change (action reader >>= fun outcome => _) = _
  rw [h]
  rfl

theorem discard_of_ok {answer : α} (h : action reader = some (.ok answer, left)) :
    (discard action : Action Unit) reader = some (.ok (), left) :=
  bind_of_ok h fun _ => pure ()

theorem call_eq {operation : Reader → Outcome α} {outcome : Outcome α}
    (h : operation reader = outcome) : call operation reader = some outcome :=
  congrArg some h

end

/-- Looking ahead does not depend on what is counted. -/
theorem peek_inside (reader : Reader) (frames : List Frame) :
    (reader.inside frames).peek = (reader.peek.1, reader.peek.2.inside frames) := by
  obtain ⟨pending, held, depth, keepComments, maxDepth, reached, ending⟩ := reader
  rw [Reader.peek_def, Reader.peek_def, Reader.inside]
  cases held with
  | some item => rfl
  | none =>
      cases pending with
      | nil => rfl
      | cons span rest =>
          dsimp only
          cases span.classify <;> rfl

theorem next_inside_of_held {item : Form × Span} (h : reader.held = some item)
    (frames : List Frame) :
    (reader.inside frames).next = (.ok (some item), reader.release.inside frames) :=
  Reader.next_of_held h

theorem peek_inside_of_held {item : Form × Span} (h : reader.held = some item)
    (frames : List Frame) :
    (reader.inside frames).peek = (.ok (some item), reader.inside frames) :=
  Reader.peek_of_held h

theorem eof_inside_of_held {item : Form × Span} (h : reader.held = some item)
    (frames : List Frame) :
    (reader.inside frames).eof = (.ok false, reader.inside frames) :=
  Reader.eof_of_held h

/-- Passing over comments does not depend on what is counted. -/
theorem skipComments_inside (reader : Reader) (frames : List Frame) :
    (reader.inside frames).skipComments =
      (reader.skipComments.1, reader.skipComments.2.inside frames) := by
  induction hCount : reader.remaining using Nat.strongRecOn generalizing reader with
  | ind count ih =>
  have hPeeks := reader.peeks_peek
  rw [Reader.skipComments_eq_loop, reader.skipComments_eq_loop, peek_inside]
  generalize reader.peek = outcome at hPeeks
  cases hPeeks with
  | ended | failed => rfl
  | @held left item hBehind hHeld hRemaining hDrive =>
      obtain ⟨token, span⟩ := item
      have hRelease := Reader.remaining_release hHeld
      dsimp only
      split
      · exact ih left.release.remaining (by omega) left.release rfl
      · rfl

/-- The loop that passes over comments comes to an end. -/
theorem skipComments_eq (reader : Reader) (hCalls : reader.remaining < calls) :
    skipComments calls reader = some reader.skipComments := by
  induction calls generalizing reader with
  | zero => omega
  | succ calls ih =>
  have hPeeks := reader.peeks_peek
  rw [skipComments, reader.skipComments_eq_loop]
  cases hPeek : reader.peek with
  | mk answer left =>
  rw [hPeek] at hPeeks
  cases hPeeks with
  | ended hDrive =>
      rw [bind_of_ok (call_eq hPeek)]
      rfl
  | failed hFails => exact bind_of_error (call_eq hPeek) _
  | @held left item hBehind hHeld hRemaining hDrive =>
      obtain ⟨token, span⟩ := item
      have hRelease := Reader.remaining_release hHeld
      rw [bind_of_ok (call_eq hPeek)]
      dsimp only
      split
      · rw [bind_of_ok (discard_of_ok (call_eq (Reader.next_of_held hHeld)))]
        exact ih left.release (by omega)
      · rfl

/-- What a procedure comes to that is entered where an assembly is fed: an end, with the assembly
that the answer makes, or a failure of the feeding. As many levels are counted behind an answer as
in front of it. -/
inductive Simulates (reader : Reader) (start : Assembly) (ends : α → Assembly → Prop) :
    Option (Outcome α) → Prop where
  | answered {left : Reader} {answer : α} {next : Assembly} (hBehind : reader.Behind left)
      (hHeld : left.held = none) (hUsed : left.remaining < reader.remaining)
      (hEnds : ends answer next)
      (hDrive : ∀ enough, Patient enough →
        reader.driveFrom enough start = left.driveOn enough next) :
      Simulates reader start ends (some (.ok answer, left.inside start.frames))
  | failed {left : Reader} {error : ReadError}
      (hFails : ∀ enough, Patient enough →
        reader.failureFrom enough start = some (error, left)) :
      Simulates reader start ends (some (.error error, left))

namespace Simulates

variable {start next : Assembly} {between : Reader} {ends : α → Assembly → Prop}
  {outcome : Option (Outcome α)}

/-- Feeding may have gone on to another assembly with as many frames. -/
theorem of_drive (h : Simulates between next ends outcome) (hBehind : reader.Behind between)
    (hRemaining : between.remaining ≤ reader.remaining)
    (hLength : next.frames.length = start.frames.length)
    (hDrive : ∀ enough, Patient enough →
      reader.driveFrom enough start = between.driveFrom enough next) :
    Simulates reader start ends outcome := by
  cases h with
  | @answered left answer last hRest hHeld hUsed hEnds hRestDrive =>
      have hInside : left.inside next.frames = left.inside start.frames := by
        rw [Reader.inside, Reader.inside, hLength]
      rw [hInside]
      refine .answered (hBehind.trans hRest) hHeld (by omega) hEnds fun enough hPatient => ?_
      rw [hDrive enough hPatient, hRestDrive enough hPatient]
  | failed hFails =>
      refine .failed fun enough hPatient => ?_
      rw [hBehind.failureFrom_eq (hDrive enough hPatient), hFails enough hPatient]

theorem mono {ends' : α → Assembly → Prop} (h : Simulates reader start ends outcome)
    (hEnds : ∀ answer next, ends answer next → ends' answer next) :
    Simulates reader start ends' outcome := by
  cases h with
  | answered hBehind hHeld hUsed hOwn hDrive =>
      exact .answered hBehind hHeld hUsed (hEnds _ _ hOwn) hDrive
  | failed hFails => exact .failed hFails

variable {token : Form} {span : Span} {error : ReadError}

/-- A token that is refused has been used. -/
theorem of_refused (hHeld : reader.held = some (token, span))
    (hAccept : start.accept reader.nesting token span = .error { error }) :
    Simulates reader start ends (some (.error error, reader.release.inside start.frames)) :=
  .failed fun enough _ => Reader.failureFrom_of_refused hHeld hAccept enough

/-- A token that is refused and stays to be read again has not. -/
theorem of_refused_held (hHeld : reader.held = some (token, span))
    (hAccept : start.accept reader.nesting token span =
      .error { error, held := some (token, span) }) :
    Simulates reader start ends (some (.error error, reader.inside start.frames)) := by
  refine .failed fun enough _ => ?_
  rw [Reader.failureFrom_of_refused hHeld hAccept, Reader.inside, hHeld]
  rfl

/-- A token that is accepted has been used. -/
theorem of_accepted {answer : α} (hHeld : reader.held = some (token, span))
    (hAccept : start.accept reader.nesting token span = .ok next) (hEnds : ends answer next) :
    Simulates reader start ends (some (.ok answer, reader.release.inside start.frames)) := by
  have hRelease := Reader.remaining_release hHeld
  exact .answered (Reader.behind_release reader) rfl (by omega) hEnds fun enough _ =>
    Reader.driveFrom_of_accept hHeld hAccept enough

theorem bind_pure {ends' : β → Assembly → Prop} {action : Action α} {state : Reader} {f : α → β}
    (h : Simulates reader start ends (action state))
    (hEnds : ∀ answer next, ends answer next → ends' (f answer) next) :
    Simulates reader start ends' ((action >>= fun answer => pure (f answer)) state) := by
  generalize hOutcome : action state = outcome at h
  cases h with
  | answered hBehind hHeld hUsed hOwn hDrive =>
      rw [bind_of_ok hOutcome]
      exact .answered hBehind hHeld hUsed (hEnds _ _ hOwn) hDrive
  | failed hFails =>
      rw [bind_of_error hOutcome]
      exact .failed hFails

end Simulates

/-- To enter a frame is to count a level, or to fail at the limit. -/
theorem enter_inside (reader : Reader) (frame : Frame) (frames : List Frame) (span : Span) :
    enter span (reader.inside frames) =
      if reader.maxDepth < reader.depth + frames.length + 1 then
        some (.error ((StructureFault.tooDeep reader.maxDepth).atSpan span),
          reader.inside (frame :: frames))
      else some (.ok (), reader.inside (frame :: frames)) := by
  change (if _ then _ else _ : Action _) _ = _
  by_cases hOver : reader.maxDepth < reader.depth + frames.length + 1
  · rw [if_pos hOver, if_pos (by exact_mod_cast hOver)]
    rfl
  · rw [if_neg hOver, if_neg (by exact_mod_cast hOver)]
    rfl

/-- A level that is entered is fed in a frame of its own, and left behind its end. -/
theorem simulates_of_enter {token : Form} {span : Span} {frame : Frame} {action : Action α}
    {ends : α → Assembly → Prop} {ends' : β → Assembly → Prop} {next : α → Action β}
    (hHeld : reader.held = some (token, span))
    (hAccept : Assembly.accept reader.nesting ⟨frames, forms⟩ token span =
      Assembly.enter reader.nesting ⟨frames, forms⟩ frame span)
    (hInner : Simulates reader.release ⟨frame :: frames, forms⟩ ends
      (action (reader.release.inside (frame :: frames))))
    (hNext : ∀ answer last, ends answer last → ∃ answer', ends' answer' last ∧
      ∀ left : Reader,
        next answer (left.inside (frame :: frames)) = some (.ok answer', left.inside frames)) :
    Simulates reader ⟨frames, forms⟩ ends'
      ((enter span >>= fun _ => action >>= next) (reader.release.inside frames)) := by
  have hEnter := enter_inside reader.release frame frames span
  unfold Assembly.enter at hAccept
  change _ = if reader.maxDepth < reader.depth + frames.length + 1 then _ else _ at hAccept
  change _ = if reader.maxDepth < reader.depth + frames.length + 1 then _ else _ at hEnter
  by_cases hOver : reader.maxDepth < reader.depth + frames.length + 1
  · rw [if_pos hOver] at hAccept
    rw [if_pos hOver] at hEnter
    rw [bind_of_error hEnter]
    exact .failed fun enough _ => Reader.failureFrom_of_refused hHeld hAccept enough
  · rw [if_neg hOver] at hAccept
    rw [if_neg hOver] at hEnter
    rw [bind_of_ok hEnter]
    have hRelease := Reader.remaining_release hHeld
    have hDrive (enough : Assembly → Bool) (hPatient : Patient enough) :
        reader.driveFrom enough ⟨frames, forms⟩ =
          reader.release.driveFrom enough ⟨frame :: frames, forms⟩ := by
      rw [Reader.driveFrom_of_accept hHeld hAccept,
        Reader.driveOn_of_open hPatient (List.cons_ne_nil _ _)]
    generalize hOutcome : action (reader.release.inside (frame :: frames)) = outcome at hInner
    cases hInner with
    | @answered left answer last hBehind hLeft hUsed hEnds hRest =>
        obtain ⟨answer', hEnds', hAnswer⟩ := hNext answer last hEnds
        rw [bind_of_ok hOutcome, hAnswer]
        refine .answered ((Reader.behind_release reader).trans hBehind) hLeft (by omega) hEnds' ?_
        intro enough hPatient
        rw [hDrive enough hPatient, hRest enough hPatient]
    | failed hFails =>
        rw [bind_of_error hOutcome]
        refine .failed fun enough hPatient => ?_
        rw [(Reader.behind_release reader).failureFrom_eq (hDrive enough hPatient),
          hFails enough hPatient]

/-- Comments are passed over in front of what goes on inside a frame. -/
theorem simulates_of_skip {frame : Frame} {next : Action α} {ends : α → Assembly → Prop}
    (reader : Reader) (hCalls : reader.remaining < calls)
    (hEnd : ∀ left : Reader, left.peek = (.ok none, left) →
      next (left.inside (frame :: outer)) =
        some (.error frame.endOfInput, left.inside (frame :: outer)))
    (hNext : ∀ left : Reader, left.remaining ≤ reader.remaining →
      ∀ token span, left.held = some (token, span) → token.isComment = false →
        Simulates left ⟨frame :: outer, forms⟩ ends (next (left.inside (frame :: outer)))) :
    Simulates reader ⟨frame :: outer, forms⟩ ends
      ((skipComments calls >>= fun _ => next) (reader.inside (frame :: outer))) := by
  have hSkips := reader.skips_skipComments frame outer forms
  have hSkip := skipComments_eq (reader.inside (frame :: outer)) hCalls
  rw [skipComments_inside] at hSkip
  generalize reader.skipComments = outcome at hSkips hSkip
  cases hSkips with
  | ended hPeek hFails =>
      rw [bind_of_ok hSkip, hEnd _ hPeek]
      exact .failed hFails
  | @stopped left token span hBehind hHeld hOther hRemaining hDrive =>
      rw [bind_of_ok hSkip]
      exact (hNext left hRemaining token span hHeld hOther).of_drive hBehind hRemaining rfl hDrive
  | failed hFails =>
      rw [bind_of_error hSkip]
      exact .failed hFails

end LispReader.Descent
