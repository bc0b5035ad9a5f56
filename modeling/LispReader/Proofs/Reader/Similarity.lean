import LispReader.Proofs.Reader.Run

/-!
Runs that differ in their places only. What an assembly does with a lexeme is decided by the
characters of the lexeme; where it stands is kept in the frames and comes to light in a failure.
A similarity says which spans stand for each other and which finished forms do, and runs over
similar lexemes from similar assemblies end alike.
-/

namespace LispReader

/-- Spans that stand for each other, and finished forms that do. Spans that stand for each other
hold the same characters, and a form may be added on both sides. -/
structure Similarity where
  span : Span → Span → Prop
  forms : List Form → List Form → Prop
  chars_eq : ∀ {left right}, span left right → left.chars = right.chars
  cons : ∀ {left right} form, forms left right → forms (form :: left) (form :: right)

variable (σ : Similarity)

inductive Frame.Similar : Frame → Frame → Prop where
  | list {opening opening' : Span} (h : σ.span opening opening') (items : List Form) :
      Similar (.list opening items) (.list opening' items)
  | dotted {opening opening' dot dot' : Span} (h : σ.span opening opening')
      (hDot : σ.span dot dot') (items : List Form) :
      Similar (.dotted opening dot items) (.dotted opening' dot' items)
  | closing {opening opening' : Span} (h : σ.span opening opening') (items : List Form)
      (tail : Form) : Similar (.closing opening items tail) (.closing opening' items tail)
  | quote {mark mark' : Span} (h : σ.span mark mark') (operator : Value) :
      Similar (.quote mark operator) (.quote mark' operator)

structure Assembly.Similar (left right : Assembly) : Prop where
  frames : List.Forall₂ (Frame.Similar σ) left.frames right.frames
  forms : σ.forms left.forms right.forms

/-- The same failure at spans that stand for each other. -/
inductive ReadError.Similar : ReadError → ReadError → Prop where
  | lexeme {left right : Span} (fault : LexemeFault) (h : σ.span left right) :
      Similar (.lexeme fault (some left.position)) (.lexeme fault (some right.position))
  | structural {left right : Span} (fault : StructureFault) (h : σ.span left right) :
      Similar (.structural fault (some left.position)) (.structural fault (some right.position))

/-- Both runs succeed or both fail, and what they end in is similar. -/
inductive RunsAlike : Except Refusal Assembly → Except Refusal Assembly → Prop where
  | ok {left right : Assembly} (h : left.Similar σ right) : RunsAlike (.ok left) (.ok right)
  | error {left right : Refusal} (h : left.error.Similar σ right.error) :
      RunsAlike (.error left) (.error right)

variable {σ} {nesting : Nesting}

theorem RunsAlike.bind {left right : Except Refusal Assembly}
    {next next' : Assembly → Except Refusal Assembly} (h : RunsAlike σ left right)
    (hNext : ∀ assembly assembly', assembly.Similar σ assembly' →
      RunsAlike σ (next assembly) (next' assembly')) :
    RunsAlike σ (left >>= next) (right >>= next') := by
  cases h with
  | ok h => exact hNext _ _ h
  | error h => exact .error h

namespace Assembly

theorem deliver_similar {left right : List Form} (hForms : σ.forms left right) (form : Form)
    {frames frames' : List Frame} (hFrames : List.Forall₂ (Frame.Similar σ) frames frames') :
    (deliver left form frames).Similar σ (deliver right form frames') := by
  induction hFrames generalizing form with
  | nil => exact ⟨.nil, σ.cons form hForms⟩
  | cons hFrame hOuter ih =>
      cases hFrame with
      | list h items => exact ⟨.cons (.list h _) hOuter, hForms⟩
      | dotted h _ items => exact ⟨.cons (.closing h _ _) hOuter, hForms⟩
      | closing h items tail => exact ⟨.cons (.closing h _ _) hOuter, hForms⟩
      | quote h operator => exact ih _

theorem enter_similar {left right : Assembly} (h : left.Similar σ right) {frame frame' : Frame}
    (hFrame : frame.Similar σ frame') {span span' : Span} (hSpan : σ.span span span') :
    RunsAlike σ (left.enter nesting frame span) (right.enter nesting frame' span') := by
  unfold enter
  rw [h.frames.length_eq]
  split
  · exact .error (.structural _ hSpan)
  · exact .ok ⟨.cons hFrame h.frames, h.forms⟩

theorem acceptForm_similar {left right : Assembly} (h : left.Similar σ right) (token : Form)
    {span span' : Span} (hSpan : σ.span span span') :
    RunsAlike σ (left.acceptForm nesting token span) (right.acceptForm nesting token span') := by
  cases token with
  | listStart => exact enter_similar h (.list hSpan []) hSpan
  | quotePrefix operator => exact enter_similar h (.quote hSpan operator) hSpan
  | listEnd | dot => exact .error (.structural _ hSpan)
  | comment depth text =>
      obtain ⟨frames, forms⟩ := left
      obtain ⟨frames', forms'⟩ := right
      cases h.frames with
      | nil => exact .ok ⟨.nil, σ.cons _ h.forms⟩
      | cons => exact .ok h
  | _ => exact .ok (deliver_similar h.forms _ h.frames)

theorem accept_similar {left right : Assembly} (h : left.Similar σ right) (token : Form)
    {span span' : Span} (hSpan : σ.span span span') :
    RunsAlike σ (left.accept nesting token span) (right.accept nesting token span') := by
  have hForm : RunsAlike σ (left.acceptForm nesting token span)
      (right.acceptForm nesting token span') := acceptForm_similar h token hSpan
  obtain ⟨frames, forms⟩ := left
  obtain ⟨frames', forms'⟩ := right
  cases h.frames with
  | nil => exact hForm
  | cons hFrame hOuter =>
      cases hFrame with
      | list hOpening items =>
          cases token with
          | listEnd => exact .ok (deliver_similar h.forms _ hOuter)
          | dot =>
              cases items with
              | nil => exact .error (.structural _ hSpan)
              | cons item items => exact .ok ⟨.cons (.dotted hOpening hSpan _) hOuter, h.forms⟩
          | _ => exact hForm
      | dotted hOpening hDot items =>
          cases token with
          | listEnd => exact .error (.structural _ hDot)
          | _ => exact hForm
      | closing hOpening items tail =>
          cases token with
          | listEnd => exact .ok (deliver_similar h.forms _ hOuter)
          | comment => exact .ok h
          | _ => exact .error (.structural _ hSpan)
      | quote hMark operator => exact hForm

theorem acceptSpan_similar {left right : Assembly} (h : left.Similar σ right) {span span' : Span}
    (hSpan : σ.span span span') :
    RunsAlike σ (left.acceptSpan nesting span) (right.acceptSpan nesting span') := by
  unfold acceptSpan Span.classify
  rw [σ.chars_eq hSpan]
  cases Lexeme.classify span'.chars with
  | error fault => exact .error (.lexeme fault hSpan)
  | ok token => exact accept_similar h token hSpan

/-- Runs over similar lexemes end alike. -/
theorem run_similar {spans spans' : List Span} (hSpans : List.Forall₂ σ.span spans spans')
    {left right : Assembly} (h : left.Similar σ right) :
    RunsAlike σ (left.run nesting spans) (right.run nesting spans') := by
  induction hSpans generalizing left right with
  | nil => exact .ok h
  | @cons span span' spans spans' hSpan _ ih =>
      rw [run_cons, run_cons]
      exact (acceptSpan_similar h hSpan).bind fun _ _ hNext => ih hNext

theorem endOfInput_similar {left right : Assembly} (h : left.Similar σ right) :
    Option.Rel (ReadError.Similar σ) left.endOfInput? right.endOfInput? := by
  obtain ⟨frames, forms⟩ := left
  obtain ⟨frames', forms'⟩ := right
  cases h.frames with
  | nil => exact .none
  | cons hFrame _ =>
      cases hFrame with
      | list hOpening | dotted hOpening | closing hOpening =>
          exact .some (.structural _ hOpening)
      | @quote mark mark' hMark =>
          have hText : mark.text = mark'.text := by
            unfold Span.text
            rw [σ.chars_eq hMark]
          simp only [endOfInput?, List.head?_cons, Option.map_some, Frame.endOfInput, hText]
          exact .some (.structural _ hMark)

end Assembly

end LispReader
