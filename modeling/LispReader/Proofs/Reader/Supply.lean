import LispReader.Proofs.Reader.Watched

/-!
What becomes of the lexemes of a reader: each one is looked up once, and then it is used by the call
that takes it, or it is held, or it is what the call has failed at. The calls that look at what is
next, or pass over it, keep such an account.
-/

namespace LispReader

/-- A lexeme with its meaning, if it has one. -/
def Span.item? (span : Span) : Option (Form × Span) :=
  match span.classify with
  | .ok token => some (token, span)
  | .error _ => none

/-- The failure of a lexeme that has no meaning. -/
def Span.fault? (span : Span) : Option ReadError :=
  match span.classify with
  | .ok _ => none
  | .error error => some error

/-- A failure, if it is that of a lexeme to have a meaning. -/
def ReadError.lexemeFaults : ReadError → List ReadError
  | .lexeme fault position => [.lexeme fault position]
  | .structural _ _ => []

/-- What is said in an answer of lexemes without a meaning. -/
def lexemeFaults {α : Type} : Except ReadError α → List ReadError
  | .ok _ => []
  | .error error => error.lexemeFaults

theorem lexemeFaults_map {α β : Type} (f : α → β) (answer : Except ReadError α) :
    lexemeFaults (f <$> answer) = lexemeFaults answer := by
  cases answer <;> rfl

/-- The lexemes that are left: one that is held with its meaning, and those that are pending. -/
structure Supply where
  held : Option (Form × Span)
  pending : List Span

/-- What has become of the lexemes of a supply: those that have been looked up were pending in front
of the ones that still are; of those, the ones with a meaning are used in order or held, as is the
one that was held before, and for each one without a meaning there is a failure. -/
structure Accounts (before after : Supply) (faults : List ReadError) (looked : List Span)
    (used : List (Form × Span)) : Prop where
  pending : before.pending = looked ++ after.pending
  items : before.held.toList ++ looked.filterMap Span.item? = used ++ after.held.toList
  faults : looked.filterMap Span.fault? = faults

namespace Accounts

variable {before between after : Supply} {faults others : List ReadError}
  {looked more : List Span} {used further : List (Form × Span)} {span : Span} {rest : List Span}
  {token : Form} {error : ReadError}

theorem refl (supply : Supply) : Accounts supply supply [] [] [] :=
  ⟨rfl, by simp, rfl⟩

theorem trans (h : Accounts before between faults looked used)
    (hMore : Accounts between after others more further) :
    Accounts before after (faults ++ others) (looked ++ more) (used ++ further) where
  pending := by rw [h.pending, hMore.pending, List.append_assoc]
  items := by
    rw [List.filterMap_append, ← List.append_assoc, h.items, List.append_assoc, hMore.items,
      List.append_assoc]
  faults := by rw [List.filterMap_append, h.faults, hMore.faults]

/-- A lexeme with a meaning is held. -/
theorem hold (h : span.classify = .ok token) (rest : List Span) :
    Accounts ⟨none, span :: rest⟩ ⟨some (token, span), rest⟩ [] [span] [] where
  pending := rfl
  items := by simp [Span.item?, h]
  faults := by simp [Span.fault?, h]

/-- A lexeme without a meaning is left behind with a failure. -/
theorem fail (h : span.classify = .error error) (rest : List Span) :
    Accounts ⟨none, span :: rest⟩ ⟨none, rest⟩ error.lexemeFaults [span] [] where
  pending := rfl
  items := by simp [Span.item?, h]
  faults := by
    have hOwn : error.lexemeFaults = [error] := by
      unfold Span.classify at h
      split at h <;> cases h
      rfl
    simp [Span.fault?, h, hOwn]

theorem useHeld (item : Form × Span) (pending : List Span) :
    Accounts ⟨some item, pending⟩ ⟨none, pending⟩ [] [] [item] :=
  ⟨rfl, rfl, rfl⟩

/-- A lexeme with a meaning is used. -/
theorem use (h : span.classify = .ok token) (rest : List Span) :
    Accounts ⟨none, span :: rest⟩ ⟨none, rest⟩ [] [span] [(token, span)] :=
  (hold h rest).trans (useHeld (token, span) rest)

end Accounts

open Reader (Outcome)

def Reader.supply (reader : Reader) : Supply :=
  ⟨reader.held, reader.pending⟩

/-- An action is watched on the way to an outcome, and with these lexemes used every lexeme is
accounted for. -/
def Accounted {α : Type} (action : Watched (Outcome α)) (before : Supply) (outcome : Outcome α)
    (used : List (Form × Span)) : Prop :=
  ∃ looked, Watched.Looks action outcome looked ∧
    Accounts before outcome.2.supply (lexemeFaults outcome.1) looked used

theorem Accounted.map {α β : Type} {action : Watched (Outcome α)} {before : Supply}
    {outcome : Outcome α} {used : List (Form × Span)} (h : Accounted action before outcome used)
    (f : α → β) : Accounted (Outcome.map f <$> action) before (outcome.map f) used := by
  obtain ⟨looked, hLooks, hAccounts⟩ := h
  refine ⟨looked, hLooks.map _, ?_⟩
  rw [Outcome.map, lexemeFaults_map]
  exact hAccounts

namespace Reader

/-- What is looked at is held, if there is anything. -/
theorem held_of_peek {reader after : Reader} {item : Option (Form × Span)}
    (h : reader.peek = (.ok item, after)) : after.held = item := by
  rw [peek_def] at h
  split at h
  · next hHeld =>
      cases h
      exact hHeld
  · split at h
    · cases h
      rfl
    · split at h
      · cases h
      · cases h
        rfl

/-- Without lexemes there is nothing to look at. -/
theorem peek_of_empty {reader : Reader} (h : reader.supply = ⟨none, []⟩) :
    reader.peek = (.ok none, reader.atEnd) := by
  obtain ⟨hHeld, hPending⟩ := Supply.mk.inj h
  rw [peek_def, hHeld, hPending]

theorem eof_of_empty {reader : Reader} (h : reader.supply = ⟨none, []⟩) :
    reader.eof = (.ok true, reader.atEnd) := by
  rw [eof_def, peek_of_empty h]
  rfl

/-- Looking at the next lexeme uses none. -/
theorem accounted_peek (reader : Reader) :
    Accounted (Watched.peek reader) reader.supply reader.peek [] := by
  rw [Watched.peek, peekWith, peek_def]
  cases hHeld : reader.held with
  | some item => exact ⟨[], .pure _, .refl reader.supply⟩
  | none =>
      cases hPending : reader.pending with
      | nil =>
          have hSupply : reader.supply = ⟨none, []⟩ := by rw [supply, hHeld, hPending]
          rw [hSupply]
          exact ⟨[], .pure _, .refl _⟩
      | cons span rest =>
          have hSupply : reader.supply = ⟨none, span :: rest⟩ := by rw [supply, hHeld, hPending]
          rw [hSupply]
          dsimp only
          cases hMeaning : span.classify with
          | error error => exact ⟨[span], .look_bind hMeaning (.pure _), .fail hMeaning rest⟩
          | ok token => exact ⟨[span], .look_bind hMeaning (.pure _), .hold hMeaning rest⟩

/-- What an answer hands out. -/
def handed : Except ReadError (Option (Form × Span)) → List (Form × Span)
  | .ok item => item.toList
  | .error _ => []

/-- The lexeme that is handed out is used. -/
theorem accounted_next (reader : Reader) :
    Accounted (Watched.next reader) reader.supply reader.next (handed reader.next.1) := by
  obtain ⟨looked, hLooks, hAccounts⟩ := accounted_peek reader
  rw [Watched.next, nextWith, next_def]
  cases hPeek : reader.peek with
  | mk answer after =>
      rw [hPeek] at hLooks hAccounts
      refine ⟨looked ++ [], ?_, ?_⟩
      · cases answer <;> exact hLooks.bind (.pure _)
      · cases answer with
        | error error =>
            rw [List.append_nil]
            exact hAccounts
        | ok item =>
            apply hAccounts.trans
            rw [supply, held_of_peek hPeek]
            cases item with
            | none => exact .refl _
            | some item => exact .useHeld item _

theorem accounted_eof (reader : Reader) :
    Accounted (Watched.eof reader) reader.supply reader.eof [] := by
  obtain ⟨looked, hLooks, hAccounts⟩ := accounted_peek reader
  rw [Watched.eof, eofWith, eof_def]
  cases hPeek : reader.peek with
  | mk answer after =>
      rw [hPeek] at hLooks hAccounts
      refine ⟨looked ++ [], ?_, ?_⟩
      · cases answer <;> exact hLooks.bind (.pure _)
      · rw [List.append_nil]
        cases answer <;> exact hAccounts

/-- From a reader that holds nothing, comments are passed over and nothing else is. -/
theorem accounted_skipCommentsIn (reader : Reader) (spans : List Span) :
    ∃ used, Accounted (reader.skipCommentsInWith Span.look spans) ⟨none, spans⟩
        (skipCommentsIn reader spans) used ∧
      ∀ item ∈ used, item.1.isComment = true := by
  induction spans generalizing reader with
  | nil => exact ⟨[], ⟨[], .pure _, .refl _⟩, List.forall_mem_nil _⟩
  | cons span rest ih =>
      rw [skipCommentsInWith, skipCommentsIn_cons]
      dsimp only
      cases hMeaning : span.classify with
      | error error =>
          exact ⟨[], ⟨[span], .look_bind hMeaning (.pure _), .fail hMeaning rest⟩,
            List.forall_mem_nil _⟩
      | ok token =>
          dsimp only
          split
          · next hComment =>
              obtain ⟨used, ⟨looked, hLooks, hAccounts⟩, hUsed⟩ := ih
                { reader with pending := rest, held := none, reached := span.stop.toNat }
              refine ⟨(token, span) :: used, ⟨span :: looked, .look_bind hMeaning ?_,
                (Accounts.use hMeaning rest).trans hAccounts⟩,
                List.forall_mem_cons.2 ⟨hComment, hUsed⟩⟩
              dsimp only
              rw [if_pos hComment]
              exact hLooks
          · next hOther =>
              refine ⟨[], ⟨[span], .look_bind hMeaning ?_, .hold hMeaning rest⟩,
                List.forall_mem_nil _⟩
              dsimp only
              rw [if_neg hOther]
              exact .pure _

/-- Comments are passed over, and nothing else is. -/
theorem accounted_skipComments (reader : Reader) :
    ∃ used, Accounted (Watched.skipComments reader) reader.supply reader.skipComments used ∧
      ∀ item ∈ used, item.1.isComment = true := by
  obtain ⟨used, ⟨looked, hLooks, hAccounts⟩, hUsed⟩ :=
    accounted_skipCommentsIn reader reader.pending
  rw [Watched.skipComments, skipCommentsWith, skipComments_def]
  cases hHeld : reader.held with
  | none =>
      rw [supply, hHeld]
      exact ⟨used, ⟨looked, hLooks, hAccounts⟩, hUsed⟩
  | some item =>
      obtain ⟨token, span⟩ := item
      dsimp only
      split
      · next hComment =>
          rw [supply, hHeld]
          exact ⟨(token, span) :: used,
            ⟨looked, hLooks, (Accounts.useHeld (token, span) _).trans hAccounts⟩,
            List.forall_mem_cons.2 ⟨hComment, hUsed⟩⟩
      · exact ⟨[], ⟨[], .pure _, .refl reader.supply⟩, List.forall_mem_nil _⟩

end Reader

end LispReader
