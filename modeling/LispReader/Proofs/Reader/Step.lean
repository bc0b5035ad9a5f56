import LispReader.Proofs.Reader.Run

/-!
What one token does to an assembly, as a relation. Its rules are the steps that `accept` can take
without a refusal, each under the condition that it needs, so an invariant of assemblies is shown
rule by rule.
-/

namespace LispReader

/-- Whether a form may be handed to a frame. Only a list whose tail has been read takes none. -/
def Frame.takesForm : Frame → Bool
  | .closing _ _ _ => false
  | _ => true

/-- A form may be handed to the innermost frame, or there is no frame. -/
def TakesForm (frames : List Frame) : Prop :=
  ∀ frame ∈ frames.head?, frame.takesForm = true

theorem takesForm_nil : TakesForm [] := by
  simp [TakesForm]

theorem takesForm_cons {frame : Frame} {outer : List Frame} :
    TakesForm (frame :: outer) ↔ frame.takesForm = true := by
  simp [TakesForm]

/-- Whether so many levels may be open, besides those that are open from outside. -/
def Nesting.Allows (nesting : Nesting) (levels : Nat) : Prop :=
  nesting.base + levels ≤ nesting.limit

theorem Nesting.Allows.mono {nesting : Nesting} {fewer more : Nat} (h : nesting.Allows more)
    (hLe : fewer ≤ more) : nesting.Allows fewer := by
  unfold Nesting.Allows at *
  omega

namespace Assembly

/-- The steps of an assembly. -/
inductive Step (nesting : Nesting) : Assembly → Form → Span → Assembly → Prop where
  /-- A comment outside of all frames stands among the finished forms. -/
  | keepComment {forms : List Form} {depth text : Value} {span : Span} :
      Step nesting ⟨[], forms⟩ (.comment depth text) span ⟨[], .comment depth text :: forms⟩
  /-- A comment inside a frame is dropped. -/
  | dropComment {frame : Frame} {outer : List Frame} {forms : List Form} {depth text : Value}
      {span : Span} :
      Step nesting ⟨frame :: outer, forms⟩ (.comment depth text) span ⟨frame :: outer, forms⟩
  | atom {frames : List Frame} {forms : List Form} {token : Form} {span : Span}
      (takes : TakesForm frames) (isAtom : token.isStructural = false) :
      Step nesting ⟨frames, forms⟩ token span (deliver forms token frames)
  | openList {frames : List Frame} {forms : List Form} {span : Span} (takes : TakesForm frames)
      (fits : nesting.Allows (frames.length + 1)) :
      Step nesting ⟨frames, forms⟩ .listStart span ⟨.list span [] :: frames, forms⟩
  | openQuote {frames : List Frame} {forms : List Form} {operator : Value} {span : Span}
      (takes : TakesForm frames) (fits : nesting.Allows (frames.length + 1)) :
      Step nesting ⟨frames, forms⟩ (.quotePrefix operator) span
        ⟨.quote span operator :: frames, forms⟩
  | dot {opening : Span} {items : List Form} {outer : List Frame} {forms : List Form} {span : Span}
      (nonempty : items ≠ []) :
      Step nesting ⟨.list opening items :: outer, forms⟩ .dot span
        ⟨.dotted opening span items :: outer, forms⟩
  | closeList {opening : Span} {items : List Form} {outer : List Frame} {forms : List Form}
      {span : Span} :
      Step nesting ⟨.list opening items :: outer, forms⟩ .listEnd span
        (deliver forms (.properList items.reverse) outer)
  | closeDotted {opening : Span} {items : List Form} {tail : Form} {outer : List Frame}
      {forms : List Form} {span : Span} :
      Step nesting ⟨.closing opening items tail :: outer, forms⟩ .listEnd span
        (deliver forms (.chain items.reverse tail) outer)

/-- A frame is opened if there is a level left for it. -/
theorem enter_eq_ok_iff {nesting : Nesting} {assembly next : Assembly} {frame : Frame}
    {span : Span} :
    assembly.enter nesting frame span = .ok next ↔
      nesting.Allows (assembly.frames.length + 1) ∧
        next = { assembly with frames := frame :: assembly.frames } := by
  unfold enter Nesting.Allows
  split
  · simp only [reduceCtorEq, false_iff, not_and]
    omega
  · simp only [Except.ok.injEq, eq_comm, iff_and_self]
    omega

theorem acceptForm_of_isAtom {nesting : Nesting} {assembly : Assembly} {token : Form} {span : Span}
    (h : token.isStructural = false) :
    assembly.acceptForm nesting token span =
      .ok (deliver assembly.forms token assembly.frames) := by
  cases token <;> first | rfl | cases h

/-- Where a form may begin, a step opens a frame, hands over an atom or passes over a comment. The
end of a list and the dot inside of one are steps of another kind. -/
theorem acceptForm_eq_ok_iff {nesting : Nesting} {frames : List Frame} {forms : List Form}
    {token : Form} {span : Span} {next : Assembly} (takes : TakesForm frames)
    (hInner : ∀ opening items outer, frames = .list opening items :: outer →
      token ≠ .listEnd ∧ token ≠ .dot) :
    acceptForm nesting ⟨frames, forms⟩ token span = .ok next ↔
      Step nesting ⟨frames, forms⟩ token span next := by
  constructor
  · intro h
    cases token with
    | listStart =>
        obtain ⟨hFits, rfl⟩ := enter_eq_ok_iff.mp h
        exact .openList takes hFits
    | quotePrefix operator =>
        obtain ⟨hFits, rfl⟩ := enter_eq_ok_iff.mp h
        exact .openQuote takes hFits
    | listEnd | dot => cases h
    | comment depth text =>
        cases frames with
        | nil =>
            cases h
            exact .keepComment
        | cons frame outer =>
            cases h
            exact .dropComment
    | _ =>
        cases h
        exact .atom takes rfl
  · intro h
    cases h with
    | keepComment | dropComment => rfl
    | atom _ isAtom => exact acceptForm_of_isAtom isAtom
    | openList _ fits | openQuote _ fits => exact enter_eq_ok_iff.mpr ⟨fits, rfl⟩
    | dot => exact absurd rfl (hInner _ _ _ rfl).2
    | closeList => exact absurd rfl (hInner _ _ _ rfl).1
    | closeDotted => simp [TakesForm, Frame.takesForm] at takes

/-- Where a form may begin, only the end of a list and a dot are treated by the kind of frame. -/
theorem accept_eq_acceptForm {nesting : Nesting} {frames : List Frame} {forms : List Form}
    {token : Form} {span : Span} (takes : TakesForm frames) (hEnd : token ≠ .listEnd)
    (hDot : token ≠ .dot) :
    accept nesting ⟨frames, forms⟩ token span = acceptForm nesting ⟨frames, forms⟩ token span := by
  cases frames with
  | nil => rfl
  | cons frame outer =>
      cases frame with
      | closing => simp [TakesForm, Frame.takesForm] at takes
      | _ => cases token <;> first | rfl | contradiction

theorem accept_listEnd_eq_ok_iff {nesting : Nesting} {assembly next : Assembly} {span : Span} :
    assembly.accept nesting .listEnd span = .ok next ↔
      Step nesting assembly .listEnd span next := by
  obtain ⟨frames, forms⟩ := assembly
  constructor
  · intro h
    rcases frames with _ | ⟨_ | _ | _ | _, outer⟩ <;> cases h
    · exact .closeList
    · exact .closeDotted
  · intro h
    cases h with
    | closeList | closeDotted => rfl
    | atom _ isAtom => cases isAtom

theorem accept_dot_eq_ok_iff {nesting : Nesting} {assembly next : Assembly} {span : Span} :
    assembly.accept nesting .dot span = .ok next ↔ Step nesting assembly .dot span next := by
  obtain ⟨frames, forms⟩ := assembly
  constructor
  · intro h
    rcases frames with _ | ⟨⟨opening, items⟩ | _ | _ | _, outer⟩
    · cases h
    · by_cases hItems : items = []
      · simp [accept, hItems] at h
      · simp only [accept, List.isEmpty_iff, hItems, if_false, Except.ok.injEq] at h
        exact h ▸ .dot hItems
    all_goals cases h
  · intro h
    cases h with
    | dot nonempty => simp [accept, nonempty]
    | atom _ isAtom => cases isAtom

/-- Accepting a token without a refusal is a step. -/
theorem accept_eq_ok_iff_step {nesting : Nesting} {assembly next : Assembly} {token : Form}
    {span : Span} :
    assembly.accept nesting token span = .ok next ↔ Step nesting assembly token span next := by
  by_cases hEnd : token = .listEnd
  · exact hEnd ▸ accept_listEnd_eq_ok_iff
  by_cases hDot : token = .dot
  · exact hDot ▸ accept_dot_eq_ok_iff
  obtain ⟨frames, forms⟩ := assembly
  by_cases takes : TakesForm frames
  · rw [accept_eq_acceptForm takes hEnd hDot]
    exact acceptForm_eq_ok_iff takes fun _ _ _ _ => ⟨hEnd, hDot⟩
  -- What is left is a list whose tail has been read, and it takes comments only.
  rcases frames with _ | ⟨_ | _ | ⟨opening, items, tail⟩ | _, outer⟩
  case cons.closing =>
    constructor
    · intro h
      cases token with
      | comment depth text =>
          cases h
          exact .dropComment
      | listEnd => exact absurd rfl hEnd
      | _ => cases h
    · intro h
      cases h with
      | dropComment => rfl
      | closeDotted => exact absurd rfl hEnd
      | atom takes' | openList takes' | openQuote takes' => exact absurd takes' takes
  all_goals simp [TakesForm, Frame.takesForm] at takes

/-- The refusals of an assembly: what it does with a token that it takes no step for. -/
inductive Refuses (nesting : Nesting) : Assembly → Form → Span → Refusal → Prop where
  | tooDeep {frames : List Frame} {forms : List Form} {token : Form} {span : Span}
      (opens : token = .listStart ∨ ∃ operator, token = .quotePrefix operator)
      (full : ¬ nesting.Allows (frames.length + 1)) :
      Refuses nesting ⟨frames, forms⟩ token span
        { error := (StructureFault.tooDeep nesting.limit).atSpan span, opened := 1 }
  | unexpectedClose {frames : List Frame} {forms : List Form} {span : Span}
      (noList : ∀ frame ∈ frames.head?, ∃ mark operator, frame = .quote mark operator) :
      Refuses nesting ⟨frames, forms⟩ .listEnd span
        { error := StructureFault.unexpectedClose.atSpan span }
  | strayDot {frames : List Frame} {forms : List Form} {span : Span} (takes : TakesForm frames)
      (noList : ∀ opening items outer, frames ≠ .list opening items :: outer) :
      Refuses nesting ⟨frames, forms⟩ .dot span { error := StructureFault.strayDot.atSpan span }
  | nothingBeforeDot {opening : Span} {outer : List Frame} {forms : List Form} {span : Span} :
      Refuses nesting ⟨.list opening [] :: outer, forms⟩ .dot span
        { error := StructureFault.nothingBeforeDot.atSpan span }
  | nothingAfterDot {opening dot : Span} {items : List Form} {outer : List Frame}
      {forms : List Form} {span : Span} :
      Refuses nesting ⟨.dotted opening dot items :: outer, forms⟩ .listEnd span
        { error := StructureFault.nothingAfterDot.atSpan dot, held := some (.listEnd, span) }
  | severalAfterDot {opening : Span} {items : List Form} {tail : Form} {outer : List Frame}
      {forms : List Form} {token : Form} {span : Span} (inList : token ≠ .listEnd)
      (isForm : token.isComment = false) :
      Refuses nesting ⟨.closing opening items tail :: outer, forms⟩ token span
        { error := StructureFault.severalAfterDot.atSpan span, held := some (token, span) }

theorem enter_eq_error {nesting : Nesting} {assembly : Assembly} {frame : Frame} {span : Span}
    {refusal : Refusal} (h : assembly.enter nesting frame span = .error refusal) :
    ¬ nesting.Allows (assembly.frames.length + 1) ∧
      refusal = { error := (StructureFault.tooDeep nesting.limit).atSpan span, opened := 1 } := by
  unfold enter at h
  unfold Nesting.Allows
  split at h
  · cases h
    refine ⟨?_, rfl⟩
    omega
  · cases h

/-- Where a form may begin, a token is refused that the innermost frame does not wait for, or that
opens a level too many. -/
theorem refuses_of_acceptForm {nesting : Nesting} {frames : List Frame} {forms : List Form}
    {token : Form} {span : Span} {refusal : Refusal} (takes : TakesForm frames)
    (hClose : token = .listEnd →
      ∀ frame ∈ frames.head?, ∃ mark operator, frame = .quote mark operator)
    (hDot : token = .dot → ∀ opening items outer, frames ≠ .list opening items :: outer)
    (h : acceptForm nesting ⟨frames, forms⟩ token span = .error refusal) :
    Refuses nesting ⟨frames, forms⟩ token span refusal := by
  cases token with
  | listStart =>
      obtain ⟨hFull, rfl⟩ := enter_eq_error h
      exact .tooDeep (.inl rfl) hFull
  | quotePrefix operator =>
      obtain ⟨hFull, rfl⟩ := enter_eq_error h
      exact .tooDeep (.inr ⟨operator, rfl⟩) hFull
  | listEnd =>
      cases h
      exact .unexpectedClose (hClose rfl)
  | dot =>
      cases h
      exact .strayDot takes (hDot rfl)
  | comment =>
      simp only [acceptForm] at h
      split at h <;> cases h
  | _ => cases h

/-- Every refusal of a token is one of these. -/
theorem refuses_of_accept {nesting : Nesting} {assembly : Assembly} {token : Form} {span : Span}
    {refusal : Refusal} (h : assembly.accept nesting token span = .error refusal) :
    Refuses nesting assembly token span refusal := by
  obtain ⟨frames, forms⟩ := assembly
  rcases frames with _ | ⟨⟨opening, items⟩ | ⟨opening, dot, items⟩ | ⟨opening, items, tail⟩ |
    ⟨mark, operator⟩, outer⟩
  case nil => exact refuses_of_acceptForm takesForm_nil (by simp) (by simp) h
  case cons.list =>
    cases token with
    | listEnd => cases h
    | dot =>
        simp only [accept] at h
        split at h
        · next hItems =>
            cases h
            obtain rfl := List.isEmpty_iff.mp hItems
            exact .nothingBeforeDot
        · cases h
    | _ => exact refuses_of_acceptForm (takesForm_cons.mpr rfl) nofun nofun h
  case cons.dotted =>
    cases token with
    | listEnd =>
        cases h
        exact .nothingAfterDot
    | _ => exact refuses_of_acceptForm (takesForm_cons.mpr rfl) nofun (by simp) h
  case cons.closing =>
    cases token with
    | listEnd | comment => cases h
    | _ =>
        cases h
        exact .severalAfterDot nofun rfl
  case cons.quote =>
    exact refuses_of_acceptForm (takesForm_cons.mpr rfl) (by simp) (by simp) h

/-- What is wrong with a lexeme: its token is refused, or it has none. -/
theorem cases_of_acceptSpan_eq_error {nesting : Nesting} {assembly : Assembly} {span : Span}
    {refusal : Refusal} (h : assembly.acceptSpan nesting span = .error refusal) :
    (∃ token, span.classify = .ok token ∧ Refuses nesting assembly token span refusal) ∨
      ∃ fault, Lexeme.classify span.chars = .error fault ∧
        refusal.error = .lexeme fault (some span.position) := by
  unfold acceptSpan Span.classify at h
  unfold Span.classify
  cases hMeaning : Lexeme.classify span.chars with
  | error fault =>
      rw [hMeaning] at h
      cases h
      exact .inr ⟨fault, rfl, rfl⟩
  | ok token =>
      rw [hMeaning] at h
      exact .inl ⟨token, rfl, refuses_of_accept h⟩

/-- A run takes a step for its first lexeme. -/
theorem run_cons_of_step {nesting : Nesting} {assembly next : Assembly} {span : Span}
    {token : Form} (hToken : span.classify = .ok token)
    (step : Step nesting assembly token span next) (spans : List Span) :
    assembly.run nesting (span :: spans) = next.run nesting spans := by
  have hAccept : assembly.acceptSpan nesting span = .ok next :=
    acceptSpan_eq_ok_iff.mpr ⟨token, hToken, accept_eq_ok_iff_step.mpr step⟩
  rw [run_cons, hAccept]
  rfl

/-- What every step keeps, a run keeps. The tokens that have been accepted are at hand, so it may
be a statement about them. -/
theorem run_induction {nesting : Nesting} {invariant : List Form → Assembly → Prop}
    (hStep : ∀ tokens assembly token span next, invariant tokens assembly →
      Step nesting assembly token span next → invariant (tokens ++ [token]) next)
    {spans : List Span} {before tokens : List Form} {start last : Assembly}
    (hStart : invariant before start) (hTokens : Classified spans tokens)
    (hRun : start.run nesting spans = .ok last) : invariant (before ++ tokens) last := by
  induction hTokens generalizing before start with
  | nil =>
      cases hRun
      simpa using hStart
  | @cons span token spans tokens hToken _ ih =>
      obtain ⟨next, hAccept, hRest⟩ := run_cons_eq_ok_iff.mp hRun
      obtain ⟨token', hToken', hStepped⟩ := acceptSpan_eq_ok_iff.mp hAccept
      obtain rfl : token = token' := Except.ok.inj (hToken.symm.trans hToken')
      have hNext := hStep before start token span next hStart (accept_eq_ok_iff_step.mp hStepped)
      simpa using ih hNext hRest

end Assembly

end LispReader
