import LispReader.Proofs.Form.Sound

/-!
What the forms of a text are built from. Reading makes no form out of nothing: it takes atoms and
comments as the lexemes mean them, and puts forms together to chains, each of them ended by the
empty list or by a form that has been read. So what holds of the tokens and is kept by cells holds
of all forms that a text is read to.
-/

namespace LispReader

open Lexeme

variable {p : Form → Prop}

/-- A property of forms that a cell has if its head and its tail have it. -/
structure KeptByCells (p : Form → Prop) : Prop where
  emptyList : p .emptyList
  cons : ∀ head tail, p head → p tail → p (.cons head tail)

/-- A property of forms, as far as a token matters to it: of an atom or a comment itself, and of the
symbol that a quote mark stands for. -/
structure HoldsOfToken (p : Form → Prop) (token : Form) : Prop where
  atom : token.isStructural = false → p token
  comment : token.isComment = true → p token
  operator : ∀ operator, token = .quotePrefix operator → p (.symbol operator)

theorem KeptByCells.chain (h : KeptByCells p) {items : List Form} {tail : Form}
    (hItems : ∀ item ∈ items, p item) (hTail : p tail) : p (.chain items tail) := by
  induction items with
  | nil => exact hTail
  | cons item items ih =>
      obtain ⟨hItem, hOthers⟩ := List.forall_mem_cons.1 hItems
      exact h.cons _ _ hItem (ih hOthers)

/-- A property holds of all that a frame has taken. -/
def Frame.Holds (p : Form → Prop) : Frame → Prop
  | .list _ items | .dotted _ _ items => ∀ item ∈ items, p item
  | .closing _ items tail => (∀ item ∈ items, p item) ∧ p tail
  | .quote _ operator => p (.symbol operator)

namespace Assembly

/-- A property holds of all that an assembly has taken. -/
structure Holds (p : Form → Prop) (assembly : Assembly) : Prop where
  frames : ∀ frame ∈ assembly.frames, frame.Holds p
  forms : ∀ form ∈ assembly.forms, p form

theorem holds_deliver (h : KeptByCells p) {forms : List Form} {form : Form} {frames : List Frame}
    (hFrames : ∀ frame ∈ frames, frame.Holds p) (hForms : ∀ form ∈ forms, p form)
    (hForm : p form) : (deliver forms form frames).Holds p := by
  induction frames generalizing form with
  | nil => exact ⟨hFrames, List.forall_mem_cons.2 ⟨hForm, hForms⟩⟩
  | cons frame outer ih =>
      obtain ⟨hFrame, hOuter⟩ := List.forall_mem_cons.1 hFrames
      cases frame with
      | list =>
          exact ⟨List.forall_mem_cons.2 ⟨List.forall_mem_cons.2 ⟨hForm, hFrame⟩, hOuter⟩, hForms⟩
      | dotted => exact ⟨List.forall_mem_cons.2 ⟨⟨hFrame, hForm⟩, hOuter⟩, hForms⟩
      | closing => exact ⟨hFrames, hForms⟩
      | quote => exact ih hOuter (h.cons _ _ hFrame (h.cons _ _ hForm h.emptyList))

theorem Holds.step (h : KeptByCells p) {nesting : Nesting} {assembly next : Assembly}
    {token : Form} {span : Span} (hHolds : assembly.Holds p) (hToken : HoldsOfToken p token)
    (step : Step nesting assembly token span next) : next.Holds p := by
  obtain ⟨hFrames, hForms⟩ := hHolds
  cases step with
  | keepComment => exact ⟨hFrames, List.forall_mem_cons.2 ⟨hToken.comment rfl, hForms⟩⟩
  | dropComment => exact ⟨hFrames, hForms⟩
  | atom _ isAtom => exact holds_deliver h hFrames hForms (hToken.atom isAtom)
  | openList => exact ⟨List.forall_mem_cons.2 ⟨List.forall_mem_nil _, hFrames⟩, hForms⟩
  | openQuote => exact ⟨List.forall_mem_cons.2 ⟨hToken.operator _ rfl, hFrames⟩, hForms⟩
  | dot =>
      obtain ⟨hFrame, hOuter⟩ := List.forall_mem_cons.1 hFrames
      exact ⟨List.forall_mem_cons.2 ⟨hFrame, hOuter⟩, hForms⟩
  | closeList =>
      obtain ⟨hItems, hOuter⟩ := List.forall_mem_cons.1 hFrames
      exact holds_deliver h hOuter hForms
        (h.chain (fun item hItem => hItems item (List.mem_reverse.1 hItem)) h.emptyList)
  | closeDotted =>
      obtain ⟨⟨hItems, hTail⟩, hOuter⟩ := List.forall_mem_cons.1 hFrames
      exact holds_deliver h hOuter hForms
        (h.chain (fun item hItem => hItems item (List.mem_reverse.1 hItem)) hTail)

/-- After tokens of which a property holds, the property holds of all that an assembly has taken. -/
def HoldsAfter (p : Form → Prop) (tokens : List Form) (assembly : Assembly) : Prop :=
  (∀ token ∈ tokens, HoldsOfToken p token) → assembly.Holds p

theorem HoldsAfter.step (h : KeptByCells p) {nesting : Nesting} {tokens : List Form}
    {assembly next : Assembly} {token : Form} {span : Span} (hHolds : HoldsAfter p tokens assembly)
    (step : Step nesting assembly token span next) : HoldsAfter p (tokens ++ [token]) next := by
  intro hTokens
  have hBefore : ∀ other ∈ tokens, HoldsOfToken p other := fun other hOther =>
    hTokens other (List.mem_append_left _ hOther)
  exact (hHolds hBefore).step h (hTokens token (by simp)) step

theorem Holds.run (h : KeptByCells p) {nesting : Nesting} {spans : List Span}
    {tokens : List Form} {last : Assembly} (hClassified : Classified spans tokens)
    (hTokens : ∀ token ∈ tokens, HoldsOfToken p token)
    (hRun : empty.run nesting spans = .ok last) : last.Holds p := by
  have hEmpty : HoldsAfter p [] empty := fun _ =>
    ⟨List.forall_mem_nil _, List.forall_mem_nil _⟩
  have hLast : HoldsAfter p ([] ++ tokens) last :=
    run_induction (fun _ _ _ _ _ hHolds step => hHolds.step h step) hEmpty hClassified hRun
  exact hLast hTokens

end Assembly

/-- What holds of the meanings of a text's lexemes and is kept by cells holds of its forms. -/
theorem forall_of_readText (h : KeptByCells p) {text : List Char}
    (hTokens : ∀ lexeme ∈ lexemes text, ∀ token, classify lexeme = .ok token →
      HoldsOfToken p token)
    {keepComments : Bool} {maxDepth : Int} {forms : List Form}
    (hRead : readText text keepComments maxDepth = .ok forms) : ∀ form ∈ forms, p form := by
  obtain ⟨assembly, hRun, -, rfl⟩ := readText_eq_ok_iff.mp hRead
  obtain ⟨tokens, hClassified⟩ := exists_classified_of_run hRun
  have hHolds : assembly.Holds p := by
    refine .run h hClassified (fun token hToken => ?_) hRun
    obtain ⟨span, hSpan, hMeaning⟩ := hClassified.exists_span hToken
    exact hTokens _ (List.mem_map_of_mem hSpan) token (Span.classify_eq_ok_iff.mp hMeaning)
  intro form hForm
  exact hHolds.forms form (List.mem_reverse.1 (List.mem_of_mem_filter hForm))

end LispReader
