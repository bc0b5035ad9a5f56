import LispReader.Proofs.Reader.Lookahead
import LispReader.Proofs.Reader.Procedure

/-!
The frames carry out the descent. Every procedure comes to an end within its bound, since each call
of `readForm` uses a lexeme, and does what feeding does in its place. So the procedures answer what
the operations of a reader answer, and leave the same reader behind.
-/

namespace LispReader.Descent

open LispReader.Reader (Outcome)
open LispReader.Text (Position)

variable {α : Type} {reader left : Reader} {frames outer : List Frame} {forms : List Form}
  {count calls : Nat}

/-- What a procedure comes to within every bound that three calls for each lexeme are enough to
keep. -/
def ComesTo (procedure : Nat → Action α) (reader : Reader) (outcome : Outcome α) : Prop :=
  ∀ calls, 3 * reader.remaining + 1 < calls → procedure calls reader = some outcome

/-- A token that is taken where a form may begin. -/
def Begins (frames : List Frame) (token : Form) : Prop :=
  ∀ nesting forms span, Assembly.accept nesting ⟨frames, forms⟩ token span =
    Assembly.acceptForm nesting ⟨frames, forms⟩ token span

/-- With so many lexemes left, and the first of them held, a form is read as it is fed. -/
def FormsUpTo (count : Nat) : Prop :=
  ∀ reader : Reader, reader.remaining ≤ count → ∀ calls, 3 * reader.remaining < calls →
    ∀ token span, reader.held = some (token, span) →
      ∀ frames forms, Begins frames token →
        Simulates reader ⟨frames, forms⟩
          (fun form next => form.isComment = token.isComment ∧
            next = .receive forms form frames)
          (readForm calls (reader.inside frames))

theorem begins_quote (mark : Span) (operator : Value) (outer : List Frame) (token : Form) :
    Begins (.quote mark operator :: outer) token :=
  fun _ _ _ => rfl

theorem begins_nil (token : Form) : Begins [] token :=
  fun _ _ _ => rfl

theorem begins_of_takesForm {token : Form} (takes : TakesForm frames) (hEnd : token ≠ .listEnd)
    (hDot : token ≠ .dot) : Begins frames token :=
  fun _ _ _ => Assembly.accept_eq_acceptForm takes hEnd hDot

theorem begins_dotted {token : Form} (opening dot : Span) (items : List Form) (outer : List Frame)
    (hEnd : token ≠ .listEnd) : Begins (.dotted opening dot items :: outer) token := by
  intro nesting forms span
  cases token with
  | listEnd => exact absurd rfl hEnd
  | _ => rfl

/-- Behind a quote mark, comments are passed over in front of the form that it stands before. -/
theorem simulates_readDatum (hForms : FormsUpTo count) (hCount : reader.remaining ≤ count)
    (hCalls : 3 * reader.remaining + 1 < calls) (mark : Span) (operator : Value) :
    Simulates reader ⟨.quote mark operator :: outer, forms⟩
      (fun form next => next = .deliver forms (.quoteForm operator form) outer)
      (readDatum calls mark.position (.expectedAfter mark.text)
        (reader.inside (.quote mark operator :: outer))) := by
  obtain ⟨calls, rfl⟩ := Nat.exists_eq_succ_of_ne_zero (Nat.ne_zero_of_lt hCalls)
  rw [readDatum]
  refine simulates_of_skip reader (by omega) ?_ ?_
  · intro left hPeek
    have hEof : (left.inside (.quote mark operator :: outer)).eof =
        (.ok true, left.inside (.quote mark operator :: outer)) := by
      rw [Reader.eof_def, peek_inside, hPeek]
      rfl
    rw [bind_of_ok (call_eq hEof)]
    rfl
  · intro left hLess token span hHeld hOther
    rw [bind_of_ok (call_eq (eof_inside_of_held hHeld _))]
    have hForm := hForms left (Nat.le_trans hLess hCount) calls (by omega) token span hHeld _ forms
      (begins_quote mark operator outer token)
    refine hForm.mono ?_
    rintro form next ⟨hComment, rfl⟩
    rw [Assembly.receive, hComment, hOther]
    rfl

/-- The item of a list is put behind the others, unless it is a comment. -/
theorem receive_item (form : Form) (opening : Span) (items : List Form) :
    Assembly.receive forms form (.list opening items.reverse :: outer) =
      ⟨.list opening (if form.isComment then items else items ++ [form]).reverse :: outer,
        forms⟩ := by
  rw [Assembly.receive]
  cases form.isComment with
  | true => rfl
  | false => simp [Assembly.deliver]

/-- What goes on behind a form is fed on from where the form has been received. -/
theorem simulates_of_form {token : Form} {span : Span} {frame : Frame} {next : Form → Action α}
    {ends : α → Assembly → Prop} (hForms : FormsUpTo count) (hCount : reader.remaining ≤ count)
    (hCalls : 3 * reader.remaining < calls) (hHeld : reader.held = some (token, span))
    (hBegins : Begins (frame :: outer) token)
    (hLength : ∀ form : Form, form.isComment = token.isComment →
      (Assembly.receive forms form (frame :: outer)).frames.length = outer.length + 1)
    (hNext : ∀ (form : Form) (left : Reader), form.isComment = token.isComment →
      left.remaining < reader.remaining →
        Simulates left (.receive forms form (frame :: outer)) ends
          (next form (left.inside (frame :: outer)))) :
    Simulates reader ⟨frame :: outer, forms⟩ ends
      ((readForm calls >>= next) (reader.inside (frame :: outer))) := by
  have hForm := hForms reader hCount calls hCalls token span hHeld (frame :: outer) forms hBegins
  generalize hOutcome : readForm calls (reader.inside (frame :: outer)) = outcome at hForm
  cases hForm with
  | @answered left form last hBehind hLeft hUsed hEnds hDrive =>
      obtain ⟨hComment, rfl⟩ := hEnds
      rw [bind_of_ok hOutcome]
      refine (hNext form left hComment hUsed).of_drive hBehind (Nat.le_of_lt hUsed)
        (hLength form hComment) fun enough hPatient => ?_
      have hOpen : (Assembly.receive forms form (frame :: outer)).frames ≠ [] := by
        rw [← List.length_pos_iff, hLength form hComment]
        exact Nat.succ_pos _
      rw [hDrive enough hPatient, Reader.driveOn_of_open hPatient hOpen, Reader.release, ← hLeft]
  | failed hFails =>
      rw [bind_of_error hOutcome]
      exact .failed hFails

/-- Behind the tail of a list its end must follow. -/
theorem simulates_listEnd (reader : Reader) (hCalls : reader.remaining < calls) (opening : Span)
    (items : List Form) (tail : Form) :
    Simulates reader ⟨.closing opening items tail :: outer, forms⟩
      (fun answer next => next = .deliver forms (.chain items.reverse answer) outer)
      ((do
        skipComments calls
        match ← call Reader.peek with
        | none => throw (StructureFault.unterminatedList.atSpan opening)
        | some (.listEnd, _) =>
          discard (call Reader.next)
          return tail
        | some (_, span) => throw (StructureFault.severalAfterDot.atSpan span) : Action Form)
        (reader.inside (.closing opening items tail :: outer))) := by
  refine simulates_of_skip reader hCalls ?_ ?_
  · intro left hPeek
    rw [bind_of_ok (call_eq (by rw [peek_inside, hPeek]))]
    rfl
  · intro left hLess token span hHeld hOther
    rw [bind_of_ok (call_eq (peek_inside_of_held hHeld _))]
    cases token with
    | listEnd =>
        dsimp only
        rw [bind_of_ok (discard_of_ok (call_eq (next_inside_of_held hHeld _)))]
        exact .of_accepted hHeld rfl rfl
    | comment => cases hOther
    | _ => exact .of_refused_held hHeld rfl

theorem simulates_readDottedTail (hForms : FormsUpTo count) (hCount : reader.remaining ≤ count)
    (hCalls : 3 * reader.remaining + 1 < calls) (dot opening : Span) (items : List Form) :
    Simulates reader ⟨.dotted opening dot items :: outer, forms⟩
      (fun tail next => next = .deliver forms (.chain items.reverse tail) outer)
      (readDottedTail calls dot opening (reader.inside (.dotted opening dot items :: outer))) := by
  obtain ⟨calls, rfl⟩ := Nat.exists_eq_succ_of_ne_zero (Nat.ne_zero_of_lt hCalls)
  rw [readDottedTail]
  refine simulates_of_skip reader (by omega) ?_ ?_
  · intro left hPeek
    rw [bind_of_ok (call_eq (by rw [peek_inside, hPeek]))]
    rfl
  · intro left hLess token span hHeld hOther
    rw [bind_of_ok (call_eq (peek_inside_of_held hHeld _))]
    have hReceive (form : Form) (hComment : form.isComment = false) :
      Assembly.receive forms form (.dotted opening dot items :: outer) =
        ⟨.closing opening items form :: outer, forms⟩ := by
      rw [Assembly.receive, hComment]
      rfl
    cases token with
    | listEnd =>
        exact .of_refused_held hHeld rfl
    | comment => cases hOther
    | _ =>
        refine simulates_of_form hForms (Nat.le_trans hLess hCount) (by omega) hHeld
          (begins_dotted opening dot items outer nofun) ?_ ?_
        · intro form hComment
          rw [hReceive form hComment]
          rfl
        · intro form rest hComment hUsed
          rw [hReceive form hComment]
          exact simulates_listEnd rest (by omega) opening items form

theorem simulates_readItems (hForms : FormsUpTo count) (hCount : reader.remaining ≤ count)
    (hCalls : 3 * reader.remaining + 1 < calls) (opening : Span) (items : List Form) :
    Simulates reader ⟨.list opening items.reverse :: outer, forms⟩
      (fun answer next =>
        (Token.chain answer.1 (answer.2.getD .emptyList)).isComment = false ∧
          next = .deliver forms (.chain answer.1 (answer.2.getD .emptyList)) outer)
      (readItems calls opening items (reader.inside (.list opening items.reverse :: outer))) := by
  induction calls generalizing reader items with
  | zero => omega
  | succ calls ih =>
  have hPeeks := reader.peeks_peek
  have hPeek := peek_inside reader (.list opening items.reverse :: outer)
  rw [readItems]
  generalize reader.peek = outcome at hPeeks hPeek
  cases hPeeks with
  | ended hDrive =>
      rw [bind_of_ok (call_eq hPeek)]
      refine .failed fun enough _ => ?_
      rw [Reader.failureFrom_of_ended rfl (hDrive enough _)]
      rfl
  | failed hFails =>
      rw [bind_of_error (call_eq hPeek)]
      exact .failed fun enough _ => hFails enough _
  | @held left item hBehind hHeld hSame hDrive =>
      obtain ⟨token, span⟩ := item
      rw [bind_of_ok (call_eq hPeek)]
      refine Simulates.of_drive ?_ hBehind (Nat.le_of_eq hSame) rfl fun enough _ => hDrive enough _
      cases token with
      | listEnd =>
          dsimp only
          rw [bind_of_ok (discard_of_ok (call_eq (next_inside_of_held hHeld _)))]
          refine .of_accepted hHeld rfl ⟨Token.not_isComment_chain rfl items, ?_⟩
          rw [List.reverse_reverse]
          rfl
      | dot =>
          dsimp only
          rw [bind_of_ok (discard_of_ok (call_eq (next_inside_of_held hHeld _)))]
          cases items with
          | nil => exact .of_refused hHeld rfl
          | cons item items =>
              have hRelease := Reader.remaining_release hHeld
              have hAccept : Assembly.accept left.nesting
                  ⟨.list opening (item :: items).reverse :: outer, forms⟩ .dot span =
                    .ok ⟨.dotted opening span (item :: items).reverse :: outer, forms⟩ :=
                if_neg (by simp)
              have hTail (enough : Assembly → Bool) (hPatient : Patient enough) :=
                (Reader.driveFrom_of_accept hHeld hAccept enough).trans
                  (Reader.driveOn_of_open hPatient (List.cons_ne_nil _ _))
              refine Simulates.of_drive ?_ (Reader.behind_release left) (by omega) ?_ hTail
              · rw [if_neg (by simp)]
                refine Simulates.bind_pure
                  (simulates_readDottedTail hForms (by omega) (by omega) span opening _) ?_
                intro tail next hEnds
                refine ⟨rfl, ?_⟩
                rw [hEnds, List.reverse_reverse]
                rfl
              · rfl
      | _ =>
          refine simulates_of_form hForms (by omega) (by omega) hHeld
            (begins_of_takesForm (takesForm_cons.mpr rfl) nofun nofun) ?_ ?_
          · intro form _
            rw [receive_item]
            rfl
          · intro form rest hComment hUsed
            rw [receive_item]
            exact ih (by omega) (by omega) _

/-- One form, with the procedures that it calls for what is left behind its first lexeme. -/
theorem simulates_readForm (hForms : FormsUpTo count) (hCount : reader.remaining ≤ count + 1)
    (hCalls : 3 * reader.remaining < calls) {token : Form} {span : Span}
    (hHeld : reader.held = some (token, span))
    (hBegins : Begins frames token) (forms : List Form) :
    Simulates reader ⟨frames, forms⟩
      (fun form next => form.isComment = token.isComment ∧ next = .receive forms form frames)
      (readForm calls (reader.inside frames)) := by
  have hRelease := Reader.remaining_release hHeld
  have hAccept := hBegins reader.nesting forms span
  have hRest : reader.release.remaining ≤ count := by omega
  obtain ⟨calls, rfl⟩ := Nat.exists_eq_succ_of_ne_zero (Nat.ne_zero_of_lt hCalls)
  rw [readForm, bind_of_ok (call_eq (next_inside_of_held hHeld frames))]
  cases token with
  | listStart =>
      dsimp only
      obtain ⟨calls, rfl⟩ := Nat.exists_eq_succ_of_ne_zero (by omega : calls ≠ 0)
      rw [readList]
      refine simulates_of_enter hHeld hAccept
        (simulates_readItems hForms hRest (by omega) span []) ?_
      rintro ⟨items, tail⟩ last ⟨hOther, rfl⟩
      refine ⟨.chain items (tail.getD .emptyList), ⟨hOther, ?_⟩, fun left => rfl⟩
      rw [Assembly.receive, hOther]
      rfl
  | quotePrefix operator =>
      refine simulates_of_enter hHeld hAccept
        (simulates_readDatum hForms hRest (by omega) span operator) ?_
      intro form last hEnds
      exact ⟨.quoteForm operator form, ⟨rfl, hEnds⟩, fun left => rfl⟩
  | listEnd | dot => exact .of_refused hHeld hAccept
  | comment depth text =>
      refine .of_accepted hHeld (hAccept.trans ?_) ⟨rfl, rfl⟩
      cases frames <;> rfl
  | _ => exact .of_accepted hHeld hAccept ⟨rfl, rfl⟩

theorem formsUpTo (count : Nat) : FormsUpTo count := by
  induction count with
  | zero =>
      intro reader hCount calls hCalls token span hHeld
      have hRelease := Reader.remaining_release hHeld
      omega
  | succ count ih =>
      intro reader hCount calls hCalls token span hHeld frames forms hBegins
      exact simulates_readForm ih hCount hCalls hHeld hBegins forms

/-- Outside of all frames a reader that holds a lexeme reads a form from it on. -/
theorem simulates_readForm_of_held (hCalls : 3 * reader.remaining < calls) {token : Form}
    {span : Span} (hHeld : reader.held = some (token, span)) (forms : List Form) :
    Simulates reader ⟨[], forms⟩ (fun form next => next = ⟨[], form :: forms⟩)
      (readForm calls reader) := by
  have hForm := formsUpTo reader.remaining reader (Nat.le_refl _) calls hCalls token span hHeld []
    forms (begins_nil token)
  refine hForm.mono ?_
  rintro form next ⟨-, rfl⟩
  rw [Assembly.receive, List.isEmpty_nil, Bool.not_true, Bool.and_false]
  rfl

/-- Reading a form depends on the next lexeme only, looked at or not. -/
theorem readForm_of_peek {item : Form × Span} (h : reader.peek = (.ok (some item), left))
    (calls : Nat) : readForm (calls + 1) reader = readForm (calls + 1) left := by
  have hNext : reader.next = (.ok (some item), left.release) := by
    rw [Reader.next_def, h]
    rfl
  have hLeft := Reader.next_of_held (Reader.held_of_peek h)
  rw [readForm, bind_of_ok (call_eq hNext), bind_of_ok (call_eq hLeft)]
  rfl

/-- A failure of the feeding is what reading a form comes to. -/
theorem formOf_of_failure {feeding : Feeding} {error : ReadError}
    (hStops : feeding.StopsAtForm) (hFails : reader.failure? feeding = some (error, left)) :
    reader.formOf feeding = (.error error, left) := by
  unfold Reader.failure? at hFails
  unfold Reader.formOf
  cases hRefusal : feeding.refusal with
  | some refusal =>
      rw [hRefusal] at hFails
      cases hFails
      rfl
  | none =>
      rw [hRefusal] at hFails
      obtain ⟨own, hEnd, hOwn⟩ := Option.map_eq_some_iff.mp hFails
      cases hOwn
      rcases hStops hRefusal with ⟨hNone, -⟩ | ⟨form, hForm⟩
      · rw [hNone, hEnd]
        rfl
      · rw [hForm] at hEnd
        cases hEnd

/-- The descent comes to an end where a form is read, with the answer and the reader of the
frames. -/
theorem readForm_eq (reader : Reader) (hCalls : 3 * reader.remaining < calls) :
    readForm calls reader = some reader.readForm := by
  obtain ⟨calls, rfl⟩ := Nat.exists_eq_succ_of_ne_zero (Nat.ne_zero_of_lt hCalls)
  have hPeeks := reader.peeks_peek
  have hStops := stopsAtForm_drive reader
  rw [Reader.readForm_def]
  rw [Reader.drive_eq_driveFrom] at hStops ⊢
  cases hPeek : reader.peek with
  | mk answer left =>
  rw [hPeek] at hPeeks
  cases hPeeks with
  | ended hDrive =>
      have hNext : reader.next = (.ok none, reader.atEnd) := by
        rw [Reader.next_def, hPeek]
        rfl
      rw [readForm, bind_of_ok (call_eq hNext), hDrive]
      rfl
  | @failed left error hFails =>
      have hNext : reader.next = (.error error, left) := by rw [Reader.next_def, hPeek]
      rw [formOf_of_failure hStops (hFails _ _), readForm, bind_of_error (call_eq hNext)]
      rfl
  | @held left item hBehind hHeld hSame hDrive =>
      obtain ⟨token, span⟩ := item
      have hForm := simulates_readForm_of_held (by omega : 3 * left.remaining < calls + 1) hHeld []
      rw [readForm_of_peek hPeek]
      generalize readForm (calls + 1) left = outcome at hForm
      cases hForm with
      | failed hFails =>
          have hSame := hBehind.failureFrom_eq (hDrive (fun next => next.frames.isEmpty) .empty)
          rw [formOf_of_failure hStops (hSame.trans (hFails _ patient_isEmpty))]
      | @answered rest form next hRest hNone hUsed hEnds hRestDrive =>
          subst hEnds
          have hFeeding := (hDrive _ .empty).trans (hRestDrive _ patient_isEmpty)
          have hAfter := (hBehind.trans hRest).after_eq ⟨⟨[], [form]⟩, rest.pending, none⟩
            List.suffix_rfl
          rw [Reader.after_of_finished hNone] at hAfter
          rw [hFeeding]
          exact congrArg (fun left => some (Except.ok form, left)) hAfter

theorem comesTo_readForm (reader : Reader) : ComesTo readForm reader reader.readForm :=
  fun _ hCalls => readForm_eq reader (Nat.lt_of_succ_lt hCalls)

theorem readDatum_eq (reader : Reader) (hCalls : 3 * reader.remaining + 1 < calls)
    (position : Position) (fault : StructureFault) :
    readDatum calls position fault reader = some (reader.readDatum position fault) := by
  obtain ⟨calls, rfl⟩ := Nat.exists_eq_succ_of_ne_zero (Nat.ne_zero_of_lt hCalls)
  rw [readDatum, Reader.readDatum]
  have hSkip := skipComments_eq reader (by omega : reader.remaining < calls)
  have hLeft := reader.remaining_skipComments_le
  cases hSkipped : reader.skipComments with
  | mk answer left =>
  rw [hSkipped] at hSkip hLeft
  cases answer with
  | error error => exact bind_of_error hSkip _
  | ok =>
      rw [bind_of_ok hSkip]
      dsimp only
      have hRest := left.remaining_eof_le
      cases hEof : left.eof with
      | mk answer rest =>
      rw [hEof] at hRest
      dsimp only at hLeft hRest
      cases answer with
      | error error => exact bind_of_error (call_eq hEof) _
      | ok ended =>
          rw [bind_of_ok (call_eq hEof)]
          cases ended with
          | true => rfl
          | false => exact readForm_eq rest (by omega)

theorem comesTo_readDatum (reader : Reader) (position : Position) (fault : StructureFault) :
    ComesTo (fun calls => readDatum calls position fault) reader
      (reader.readDatum position fault) :=
  fun _ hCalls => readDatum_eq reader hCalls position fault

/-- What reading all forms comes to. -/
theorem formsOf_eq (reader : Reader) (feeding : Feeding) :
    reader.formsOf feeding =
      match reader.failure? feeding with
      | some (error, left) => (.error error, left)
      | none =>
        (.ok (feeding.assembly.forms.reverse.filter fun form =>
          reader.keepComments || !form.isComment), (reader.after feeding).atEnd) := by
  unfold Reader.formsOf Reader.failure?
  cases feeding.refusal with
  | some refusal => rfl
  | none => cases feeding.assembly.endOfInput? <;> rfl

theorem formsOf_of_behind (h : reader.Behind left) {feeding : Feeding}
    (hPending : feeding.pending <:+ left.pending) :
    left.formsOf feeding = reader.formsOf feeding := by
  rw [Reader.formsOf, Reader.formsOf, h.after_eq feeding hPending, h.keepComments_eq]

/-- The loop that reads all forms goes on with those that are kept so far. -/
theorem readForms_eq (reader : Reader) (hCalls : 3 * reader.remaining + 1 < calls)
    (forms : List Form) :
    readForms calls (forms.reverse.filter fun form => reader.keepComments || !form.isComment)
        reader =
      some (reader.formsOf (reader.driveFrom (fun _ => false) ⟨[], forms⟩)) := by
  induction calls generalizing reader forms with
  | zero => omega
  | succ calls ih =>
  have hPeeks := reader.peeks_peek
  rw [readForms]
  cases hPeek : reader.peek with
  | mk answer left =>
  rw [hPeek] at hPeeks
  have hEof := reader.eof_def
  rw [hPeek] at hEof
  cases hPeeks with
  | ended hDrive =>
      rw [bind_of_ok (call_eq hEof), hDrive]
      rfl
  | failed hFails =>
      have hWhole := hFails (fun _ => false) ⟨[], forms⟩
      rw [Reader.failureFrom] at hWhole
      rw [bind_of_error (call_eq hEof), formsOf_eq, hWhole]
      rfl
  | @held left item hBehind hHeld hSame hDrive =>
      obtain ⟨token, span⟩ := item
      have hForm := simulates_readForm_of_held (by omega : 3 * left.remaining < calls) hHeld forms
      rw [bind_of_ok (call_eq hEof), if_neg (by simp)]
      generalize hOutcome : readForm calls left = outcome at hForm
      cases hForm with
      | failed hFails =>
          have hWhole := hFails _ patient_never
          rw [← hBehind.failureFrom_eq (hDrive _ _), Reader.failureFrom] at hWhole
          rw [formsOf_eq, hWhole]
          exact bind_of_error hOutcome _
      | @answered rest form next hRest hNone hUsed hEnds hRestDrive =>
          subst hEnds
          have hWhole := hBehind.trans hRest
          have hFeeding : reader.driveFrom (fun _ => false) ⟨[], forms⟩ =
              rest.driveFrom (fun _ => false) ⟨[], form :: forms⟩ := by
            rw [hDrive, hRestDrive _ patient_never, Reader.driveFrom, hNone]
            rfl
          have hNext := ih rest (by omega) (form :: forms)
          rw [formsOf_of_behind hWhole (Reader.pending_driveFrom_suffix _ _ _), ← hFeeding,
            hWhole.keepComments_eq] at hNext
          rw [bind_of_ok hOutcome, ← hNext, List.reverse_cons, List.filter_append]
          change readForms calls (if form.isComment && !rest.keepComments then _ else _) rest = _
          rw [hWhole.keepComments_eq]
          cases hComment : form.isComment <;> cases reader.keepComments <;> simp [hComment]

theorem comesTo_read (reader : Reader) : ComesTo read reader reader.read := by
  intro calls hCalls
  rw [Reader.read_def, Reader.drive_eq_driveFrom]
  exact readForms_eq reader hCalls []

end LispReader.Descent
