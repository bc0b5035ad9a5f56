import LispReader.Proofs.Reader.Completion
import LispReader.Proofs.Reader.Supply

/-!
No lexeme is lost, and none is used twice. The calls that read forms keep account of the lexemes by
what they feed to an assembly, and the accounts of all calls are put together.
-/

namespace LispReader

namespace Assembly

variable {nesting : Nesting} {assembly next : Assembly} {token : Form} {span : Span}
  {refusal : Refusal}

/-- Accepts lexemes with their meanings in order. -/
def acceptItems (nesting : Nesting) (assembly : Assembly) (items : List (Form × Span)) :
    Except Refusal Assembly :=
  items.foldlM (fun current item => current.accept nesting item.1 item.2) assembly

theorem acceptItems_cons_of_accept (h : assembly.accept nesting token span = .ok next)
    (items : List (Form × Span)) :
    assembly.acceptItems nesting ((token, span) :: items) = next.acceptItems nesting items := by
  rw [acceptItems, List.foldlM_cons, h]
  rfl

/-- A token that is refused is used up by that, or stays to be read again. -/
theorem Refuses.held (h : Refuses nesting assembly token span refusal) :
    refusal.held = none ∨ refusal.held = some (token, span) := by
  cases h with
  | tooDeep | unexpectedClose | strayDot | nothingBeforeDot => exact .inl rfl
  | nothingAfterDot | severalAfterDot => exact .inr rfl

/-- Where a token is refused, nothing is said of lexemes without a meaning. -/
theorem accounts_of_accept (h : assembly.accept nesting token span = .error refusal)
    (pending : List Span) :
    ∃ used, Accounts ⟨some (token, span), pending⟩ ⟨refusal.held, pending⟩
      refusal.error.lexemeFaults [] used := by
  obtain ⟨fault, place, hError⟩ := (refuses_of_accept h).ofToken.structural
  rw [hError]
  cases (refuses_of_accept h).held with
  | inl hNone =>
      rw [hNone]
      exact ⟨_, .useHeld (token, span) pending⟩
  | inr hSome =>
      rw [hSome]
      exact ⟨_, .refl _⟩

end Assembly

namespace Feeding

def supply (feeding : Feeding) : Supply :=
  ⟨feeding.refusal.bind fun refusal => refusal.held, feeding.pending⟩

/-- What is said in a refusal of a lexeme without a meaning. -/
def faults (feeding : Feeding) : List ReadError :=
  match feeding.refusal with
  | none => []
  | some refusal => refusal.error.lexemeFaults

end Feeding

/-- An assembly is fed under watch. The lexemes are accounted for, and those that are used are what
the assembly has been built from, unless one is refused. -/
structure Fed (nesting : Nesting) (start : Assembly) (action : Watched Feeding) (before : Supply)
    (feeding : Feeding) (looked : List Span) (used : List (Form × Span)) : Prop where
  looks : Watched.Looks action feeding looked
  accounts : Accounts before feeding.supply feeding.faults looked used
  built : feeding.refusal = none → start.acceptItems nesting used = .ok feeding.assembly

theorem fed_feed (nesting : Nesting) (enough : Assembly → Bool) (assembly : Assembly)
    (spans : List Span) :
    ∃ looked used, Fed nesting assembly (assembly.feedWith Span.look nesting enough spans)
      ⟨none, spans⟩ (assembly.feed nesting enough spans) looked used := by
  induction spans generalizing assembly with
  | nil => exact ⟨[], [], .pure _, .refl _, fun _ => rfl⟩
  | cons span rest ih =>
      rw [Assembly.feedWith, Assembly.feed_cons, Assembly.acceptSpan]
      cases hMeaning : span.classify with
      | error error =>
          refine ⟨[span], [], .look_bind hMeaning (.pure _), .fail hMeaning rest, ?_⟩
          intro hNone
          cases hNone
      | ok token =>
          rw [Assembly.acceptMeaning]
          cases hAccept : assembly.accept nesting token span with
          | error refusal =>
              obtain ⟨used, hAccounts⟩ := Assembly.accounts_of_accept hAccept rest
              refine ⟨[span], used, .look_bind hMeaning ?_,
                (Accounts.hold hMeaning rest).trans hAccounts, ?_⟩
              · simp only [Assembly.acceptMeaning, hAccept]
                exact .pure _
              · intro hNone
                cases hNone
          | ok next =>
              dsimp only
              split
              · next hEnough =>
                  refine ⟨[span], [(token, span)], .look_bind hMeaning ?_, .use hMeaning rest,
                    fun _ => Assembly.acceptItems_cons_of_accept hAccept []⟩
                  simp only [Assembly.acceptMeaning, hAccept, if_pos hEnough]
                  exact .pure _
              · next hMore =>
                  obtain ⟨looked, used, hFed⟩ := ih next
                  refine ⟨span :: looked, (token, span) :: used, .look_bind hMeaning ?_,
                    (Accounts.use hMeaning rest).trans hFed.accounts, fun hNone => ?_⟩
                  · simp only [Assembly.acceptMeaning, hAccept, if_neg hMore]
                    exact hFed.looks
                  · rw [Assembly.acceptItems_cons_of_accept hAccept]
                    exact hFed.built hNone

/-- The lexeme that is held is fed first. -/
theorem fed_drive (reader : Reader) (enough : Assembly → Bool) :
    ∃ looked used, Fed reader.nesting .empty (reader.driveWith Span.look enough) reader.supply
      (reader.drive enough) looked used := by
  rw [Reader.driveWith, Reader.drive_def]
  cases hHeld : reader.held with
  | none =>
      rw [Reader.supply, hHeld]
      exact fed_feed reader.nesting enough .empty reader.pending
  | some item =>
      obtain ⟨token, span⟩ := item
      rw [Reader.supply, hHeld]
      dsimp only
      cases hAccept : Assembly.empty.accept reader.nesting token span with
      | error refusal =>
          obtain ⟨used, hAccounts⟩ := Assembly.accounts_of_accept hAccept reader.pending
          refine ⟨[], used, .pure _, hAccounts, ?_⟩
          intro hNone
          cases hNone
      | ok assembly =>
          dsimp only
          split
          · exact ⟨[], [(token, span)], .pure _, .useHeld _ _,
              fun _ => Assembly.acceptItems_cons_of_accept hAccept []⟩
          · obtain ⟨looked, used, hFed⟩ :=
              fed_feed reader.nesting enough assembly reader.pending
            refine ⟨looked, (token, span) :: used, hFed.looks,
              (Accounts.useHeld (token, span) _).trans hFed.accounts, fun hNone => ?_⟩
            rw [Assembly.acceptItems_cons_of_accept hAccept]
            exact hFed.built hNone

namespace Assembly

/-- A form, delivered where none is finished, is the only one if no frame is open afterwards. -/
theorem deliver_nil (form : Form) (frames : List Frame) :
    ((deliver [] form frames).frames ≠ [] ∧ (deliver [] form frames).forms = []) ∨
      ∃ only, deliver [] form frames = ⟨[], [only]⟩ := by
  induction frames generalizing form with
  | nil => exact .inr ⟨form, rfl⟩
  | cons frame outer ih =>
      cases frame with
      | quote mark operator => exact ih _
      | list | dotted | closing => exact .inl ⟨List.cons_ne_nil _ _, rfl⟩

/-- A step from an assembly without a finished form leads to one like that inside of a frame, or to
the first form. -/
theorem Step.first_form {nesting : Nesting} {assembly next : Assembly} {token : Form} {span : Span}
    (step : Step nesting assembly token span next) (h : assembly.forms = []) :
    (next.frames ≠ [] ∧ next.forms = []) ∨ ∃ form, next = ⟨[], [form]⟩ := by
  cases step with
  | keepComment =>
      cases h
      exact .inr ⟨_, rfl⟩
  | dropComment | openList | openQuote | dot => exact .inl ⟨List.cons_ne_nil _ _, h⟩
  | atom =>
      cases h
      exact deliver_nil _ _
  | closeList | closeDotted =>
      cases h
      exact deliver_nil _ _

end Assembly

/-- Where feeding was to stop outside of all frames, it has come to one form, or to the end of the
lexemes before there was one. -/
def Feeding.StopsAtForm (feeding : Feeding) : Prop :=
  feeding.refusal = none →
    (feeding.assembly.forms = [] ∧ feeding.pending = []) ∨
      ∃ form, feeding.assembly = ⟨[], [form]⟩

theorem stopsAtForm_feed {assembly : Assembly} (nesting : Nesting) (spans : List Span)
    (h : assembly.forms = []) :
    (assembly.feed nesting (fun next => next.frames.isEmpty) spans).StopsAtForm := by
  induction spans generalizing assembly with
  | nil => exact fun _ => .inl ⟨h, rfl⟩
  | cons span rest ih =>
      rw [Assembly.feed_cons]
      cases hAccept : assembly.acceptSpan nesting span with
      | error refusal =>
          intro hNone
          cases hNone
      | ok next =>
          obtain ⟨token, -, hToken⟩ := Assembly.acceptSpan_eq_ok_iff.mp hAccept
          rcases (Assembly.accept_eq_ok_iff_step.mp hToken).first_form h with
            ⟨hFrames, hForms⟩ | ⟨form, rfl⟩
          · dsimp only
            rw [if_neg (List.isEmpty_iff.not.mpr hFrames)]
            exact ih hForms
          · exact fun _ => .inr ⟨form, rfl⟩

theorem stopsAtForm_drive (reader : Reader) :
    (reader.drive fun assembly => assembly.frames.isEmpty).StopsAtForm := by
  rw [Reader.drive_def]
  cases reader.held with
  | none => exact stopsAtForm_feed reader.nesting reader.pending rfl
  | some item =>
      obtain ⟨token, span⟩ := item
      dsimp only
      cases hAccept : Assembly.empty.accept reader.nesting token span with
      | error refusal =>
          intro hNone
          cases hNone
      | ok assembly =>
          rcases (Assembly.accept_eq_ok_iff_step.mp hAccept).first_form rfl with
            ⟨hFrames, hForms⟩ | ⟨form, rfl⟩
          · dsimp only
            rw [if_neg (List.isEmpty_iff.not.mpr hFrames)]
            exact stopsAtForm_feed reader.nesting reader.pending hForms
          · exact fun _ => .inr ⟨form, rfl⟩

/-- Feeding that never has enough stops at a refusal or at the end. -/
theorem pending_feed_never {nesting : Nesting} {assembly : Assembly} {spans : List Span}
    (h : (assembly.feed nesting (fun _ => false) spans).refusal = none) :
    (assembly.feed nesting (fun _ => false) spans).pending = [] := by
  induction spans generalizing assembly with
  | nil => rfl
  | cons span rest ih =>
      rw [Assembly.feed_cons] at h ⊢
      cases hAccept : assembly.acceptSpan nesting span with
      | error refusal =>
          rw [hAccept] at h
          cases h
      | ok next =>
          rw [hAccept] at h
          exact ih h

theorem pending_drive_never {reader : Reader}
    (h : (reader.drive fun _ => false).refusal = none) :
    (reader.drive fun _ => false).pending = [] := by
  rw [Reader.drive_def] at h ⊢
  cases hHeld : reader.held with
  | none =>
      rw [hHeld] at h
      exact pending_feed_never h
  | some item =>
      obtain ⟨token, span⟩ := item
      rw [hHeld] at h
      dsimp only at h ⊢
      cases hAccept : Assembly.empty.accept reader.nesting token span with
      | error refusal =>
          rw [hAccept] at h
          cases h
      | ok assembly =>
          rw [hAccept] at h
          exact pending_feed_never h

namespace Reader

/-- Reading a form uses what it is built from, unless it fails. -/
theorem accounted_readForm (reader : Reader) :
    ∃ used, Accounted (Watched.readForm reader) reader.supply reader.readForm used ∧
      ∀ form, reader.readForm.1 = .ok form →
        Assembly.empty.acceptItems reader.nesting used = .ok ⟨[], [form]⟩ := by
  obtain ⟨looked, used, hFed⟩ := fed_drive reader fun assembly => assembly.frames.isEmpty
  have hStops := stopsAtForm_drive reader
  rw [Watched.readForm, readFormWith, readForm_def]
  generalize reader.drive _ = feeding at hFed hStops
  obtain ⟨assembly, pending, refusal⟩ := feeding
  obtain ⟨hLooks, hAccounts, hBuilt⟩ := hFed
  cases refusal with
  | some refusal => exact ⟨used, ⟨looked, hLooks.map _, hAccounts⟩, nofun⟩
  | none =>
      rcases hStops rfl with ⟨hForms, hPending⟩ | ⟨form, rfl⟩
      · obtain ⟨frames, forms⟩ := assembly
        obtain rfl : forms = [] := hForms
        obtain rfl : pending = [] := hPending
        refine ⟨used, ⟨looked, hLooks.map _, ?_⟩, nofun⟩
        cases frames with
        | nil => exact hAccounts
        | cons frame outer => cases frame <;> exact hAccounts
      · refine ⟨used, ⟨looked, hLooks.map _, hAccounts⟩, ?_⟩
        intro only hOnly
        cases hOnly
        exact hBuilt rfl

/-- Reading all forms uses up all lexemes, unless it fails, and the forms are built from them. -/
theorem accounted_read (reader : Reader) :
    ∃ used, Accounted (Watched.read reader) reader.supply reader.read used ∧
      ∀ forms, reader.read.1 = .ok forms →
        ∃ finished, Assembly.empty.acceptItems reader.nesting used = .ok ⟨[], finished⟩ ∧
          forms = finished.reverse.filter fun form => reader.keepComments || !form.isComment := by
  obtain ⟨looked, used, hFed⟩ := fed_drive reader fun _ => false
  have hEnds (h : (reader.drive fun _ => false).refusal = none) := pending_drive_never h
  rw [Watched.read, readWith, read_def]
  generalize reader.drive _ = feeding at hFed hEnds
  obtain ⟨assembly, pending, refusal⟩ := feeding
  obtain ⟨hLooks, hAccounts, hBuilt⟩ := hFed
  cases refusal with
  | some refusal => exact ⟨used, ⟨looked, hLooks.map _, hAccounts⟩, nofun⟩
  | none =>
      obtain rfl : pending = [] := hEnds rfl
      obtain ⟨frames, finished⟩ := assembly
      cases frames with
      | nil =>
          refine ⟨used, ⟨looked, hLooks.map _, hAccounts⟩, ?_⟩
          intro forms hForms
          exact ⟨finished, hBuilt rfl, (Except.ok.inj hForms).symm⟩
      | cons frame outer =>
          refine ⟨used, ⟨looked, hLooks.map _, ?_⟩, nofun⟩
          cases frame <;> exact hAccounts

/-- Which lexemes a call uses, by what it answers. -/
def Call.Uses (reader : Reader) (used : List (Form × Span)) : Call → Prop
  | .peek | .eof => used = []
  | .next => used = handed reader.next.1
  | .skipComments => ∀ item ∈ used, item.1.isComment = true
  | .readForm =>
    ∀ form, reader.readForm.1 = .ok form →
      Assembly.empty.acceptItems reader.nesting used = .ok ⟨[], [form]⟩
  | .read =>
    ∀ forms, reader.read.1 = .ok forms →
      ∃ finished, Assembly.empty.acceptItems reader.nesting used = .ok ⟨[], finished⟩ ∧
        forms = finished.reverse.filter fun form => reader.keepComments || !form.isComment

/-- Calls use lexemes one after the other. -/
def UsesInTurn (reader : Reader) : List Call → List (Form × Span) → Prop
  | [], used => used = []
  | call :: calls, used =>
    ∃ own others, used = own ++ others ∧ call.Uses reader own ∧
      UsesInTurn (call.run reader).2 calls others

/-- Every call accounts for the lexemes. -/
theorem accounted_call (reader : Reader) (call : Call) :
    ∃ used, Accounted (Watched.call reader call) reader.supply (call.run reader) used ∧
      call.Uses reader used := by
  cases call with
  | peek => exact ⟨[], (accounted_peek reader).map _, rfl⟩
  | next => exact ⟨_, (accounted_next reader).map _, rfl⟩
  | eof => exact ⟨[], (accounted_eof reader).map _, rfl⟩
  | skipComments =>
      obtain ⟨used, hAccounted, hComments⟩ := accounted_skipComments reader
      exact ⟨used, hAccounted.map _, hComments⟩
  | readForm =>
      obtain ⟨used, hAccounted, hForm⟩ := accounted_readForm reader
      exact ⟨used, hAccounted.map _, hForm⟩
  | read =>
      obtain ⟨used, hAccounted, hForms⟩ := accounted_read reader
      exact ⟨used, hAccounted.map _, hForms⟩

/-- Calls that are made one after the other account for the lexemes together, whatever fails. -/
theorem accounts_runCalls (reader : Reader) (calls : List Call) :
    ∃ looked used,
      Watched.Looks (Watched.runCalls reader calls) (reader.runCalls calls) looked ∧
      Accounts reader.supply (reader.runCalls calls).2.supply
        ((reader.runCalls calls).1.flatMap lexemeFaults) looked used ∧
      UsesInTurn reader calls used := by
  induction calls generalizing reader with
  | nil => exact ⟨[], [], .pure _, .refl _, rfl⟩
  | cons call calls ih =>
      obtain ⟨own, ⟨looked, hLooks, hAccounts⟩, hOwn⟩ := accounted_call reader call
      obtain ⟨looked', others, hLooks', hAccounts', hOthers⟩ := ih (call.run reader).2
      refine ⟨looked ++ (looked' ++ []), own ++ others,
        hLooks.bind (hLooks'.bind (.pure _)), ?_, own, others, rfl, hOwn, hOthers⟩
      rw [List.append_nil]
      exact hAccounts.trans hAccounts'

/-- Nothing comes of nothing: a reader without lexemes stays without. -/
theorem supply_runCalls_of_empty {reader : Reader} (h : reader.supply = ⟨none, []⟩)
    (calls : List Call) : (reader.runCalls calls).2.supply = ⟨none, []⟩ := by
  obtain ⟨looked, used, -, hAccounts, -⟩ := accounts_runCalls reader calls
  rw [h] at hAccounts
  obtain ⟨hPending, hItems, -⟩ := hAccounts
  obtain ⟨rfl, hNone⟩ := List.nil_eq_append_iff.mp hPending
  obtain ⟨-, hHeld⟩ := List.nil_eq_append_iff.mp hItems
  generalize (reader.runCalls calls).2.supply = last at hNone hHeld
  obtain ⟨held, pending⟩ := last
  cases held with
  | none => exact hNone ▸ rfl
  | some item => cases hHeld

theorem next_of_peek_eq_ok {reader after : Reader} {item : Option (Form × Span)}
    (h : reader.peek = (.ok item, after)) :
    reader.next = (.ok item, { after with held := none }) := by
  rw [next_def, h]

/-- Looking twice is looking once. -/
theorem peek_of_peek {reader after : Reader} {item : Option (Form × Span)}
    (h : reader.peek = (.ok item, after)) : after.peek = (.ok item, after) := by
  have hHeld := held_of_peek h
  cases item with
  | some item =>
      rw [peek_def, hHeld]
  | none =>
      have hAfter : after = reader.atEnd := by
        rw [peek_def] at h
        split at h
        · cases h
        · split at h
          · exact (Prod.mk.inj h).2.symm
          · split at h <;> cases h
      rw [hAfter]
      rfl

/-- Looking does not change what comes next. -/
theorem next_of_peek {reader after : Reader} {item : Option (Form × Span)}
    (h : reader.peek = (.ok item, after)) : after.next = reader.next := by
  rw [next_of_peek_eq_ok (peek_of_peek h), next_of_peek_eq_ok h]

/-- Where looking fails, using the next lexeme would have failed in the same way. -/
theorem next_of_peek_eq_error {reader after : Reader} {error : ReadError}
    (h : reader.peek = (.error error, after)) : reader.next = (.error error, after) := by
  rw [next_def, h]

theorem eof_eq (reader : Reader) :
    reader.eof = (Option.isNone <$> reader.peek.1, reader.peek.2) := by
  rw [eof_def]
  cases reader.peek with
  | mk answer after => cases answer <;> rfl

/-- Whatever a reader is asked for, with failures in between, no lexeme is lost and none is used
twice. The lexemes are taken in order, and the meaning of each one that has been taken is looked up
once. Of those, the ones with a meaning are used in order by the calls or held, and the ones without
are the faults that the answers report. What is only looked at still comes next, and at the end
nothing comes any more. -/
theorem runCalls_ofSpans_accounts (spans : List Span) (keepComments : Bool) (maxDepth : Int)
    (calls : List Call) :
    let reader := ofSpans spans keepComments maxDepth
    let answers := (reader.runCalls calls).1
    let last := (reader.runCalls calls).2
    (∃ looked used,
      (Watched.runCalls reader calls).run [] = ((answers, last), looked) ∧
      spans = looked ++ last.pending ∧
      looked.filterMap Span.item? = used ++ last.held.toList ∧
      looked.filterMap Span.fault? = answers.flatMap lexemeFaults ∧
      UsesInTurn reader calls used) ∧
    (∀ item after, last.peek = (.ok item, after) →
      last.next.1 = .ok item ∧ after.next = last.next) ∧
    (∀ error after, last.peek = (.error error, after) → last.next = (.error error, after)) ∧
    last.eof = (Option.isNone <$> last.peek.1, last.peek.2) ∧
    (last.held = none → last.pending = [] → ∀ more,
      (last.runCalls more).2.peek.1 = .ok none ∧ (last.runCalls more).2.next.1 = .ok none) := by
  intro reader answers last
  refine ⟨?_, ?_, fun error after h => next_of_peek_eq_error h, eof_eq last, ?_⟩
  · obtain ⟨looked, used, hLooks, ⟨hPending, hItems, hFaults⟩, hUses⟩ :=
      accounts_runCalls reader calls
    exact ⟨looked, used, hLooks [], hPending, hItems, hFaults, hUses⟩
  · intro item after h
    exact ⟨by rw [next_of_peek_eq_ok h], next_of_peek h⟩
  · intro hHeld hPending more
    have hSupply : last.supply = ⟨none, []⟩ := by rw [supply, hHeld, hPending]
    have hPeek := peek_of_empty (supply_runCalls_of_empty hSupply more)
    exact ⟨by rw [hPeek], by rw [next_of_peek_eq_ok hPeek]⟩

theorem runCalls_ofSpans_accounts_of_escape :
    let text := ['"', '\\', 'q', '"', ' ', ')']
    let reader := ofSpans [⟨0, 4, text⟩, ⟨5, 6, text⟩] false 1
    reader.next = reader.peek ∧
    (reader.runCalls [.eof]).2.peek.2.next = (reader.runCalls [.eof]).2.next ∧
    ∀ more, ((reader.runCalls [.eof, .readForm]).2.runCalls more).2.next.1 = .ok none := by
  intro text reader
  have hFails : reader.peek = (.error (.lexeme (.unknownEscape 'q' "\"\\q\"") (some ⟨1, 0⟩)),
      { reader with pending := [⟨5, 6, text⟩], reached := 4 }) := rfl
  refine ⟨?_, ?_, ?_⟩
  · obtain ⟨-, -, hNext, -⟩ := runCalls_ofSpans_accounts [⟨0, 4, text⟩, ⟨5, 6, text⟩] false 1 []
    exact (hNext _ _ hFails).trans hFails.symm
  · obtain ⟨-, hNext, -⟩ := runCalls_ofSpans_accounts [⟨0, 4, text⟩, ⟨5, 6, text⟩] false 1 [.eof]
    exact (hNext (some (.listEnd, ⟨5, 6, text⟩)) _ rfl).2
  · intro more
    obtain ⟨-, -, -, -, hEmpty⟩ :=
      runCalls_ofSpans_accounts [⟨0, 4, text⟩, ⟨5, 6, text⟩] false 1 [.eof, .readForm]
    exact (hEmpty rfl rfl more).2

end Reader

end LispReader
