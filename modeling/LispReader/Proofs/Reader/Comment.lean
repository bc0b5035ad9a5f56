import LispReader.Proofs.Reader.Similarity
import LispReader.Proofs.Reader.Step

/-!
Comments do nothing in a run. Inside a frame a comment is dropped, and outside of all frames it
only stands among the finished forms, so a run without them ends like the run with them.
-/

namespace LispReader

/-- The forms that are no comments. -/
def withoutComments (forms : List Form) : List Form :=
  forms.filter fun form => !form.isComment

@[simp]
theorem withoutComments_append (first second : List Form) :
    withoutComments (first ++ second) = withoutComments first ++ withoutComments second :=
  List.filter_append ..

@[simp]
theorem withoutComments_reverse (forms : List Form) :
    withoutComments forms.reverse = (withoutComments forms).reverse :=
  List.filter_reverse ..

theorem withoutComments_cons_of_isComment {token : Form} (h : token.isComment = true)
    (forms : List Form) : withoutComments (token :: forms) = withoutComments forms := by
  simp [withoutComments, h]

theorem withoutComments_cons {token : Form} (h : token.isComment = false) (forms : List Form) :
    withoutComments (token :: forms) = token :: withoutComments forms := by
  simp [withoutComments, h]

/-- The same lexemes, and the same finished forms but for comments. -/
def Similarity.butComments : Similarity where
  span left right := left = right
  forms left right := withoutComments left = withoutComments right
  chars_eq h := by rw [h]
  cons form h := by
    show withoutComments ([form] ++ _) = withoutComments ([form] ++ _)
    rw [withoutComments_append, withoutComments_append, h]

/-- The spans on the right are those on the left without some comments. -/
inductive Thinned (σ : Similarity) : List Span → List Span → Prop where
  | nil : Thinned σ [] []
  | keep {span span' : Span} {spans spans' : List Span} (hSpan : σ.span span span')
      (rest : Thinned σ spans spans') : Thinned σ (span :: spans) (span' :: spans')
  | drop {span : Span} {spans spans' : List Span} {token : Form}
      (hToken : span.classify = .ok token) (hComment : token.isComment = true)
      (rest : Thinned σ spans spans') : Thinned σ (span :: spans) spans'

/-- Spans that hold comments and nothing else. -/
def AreComments (spans : List Span) : Prop :=
  ∀ span ∈ spans, ∃ token, span.classify = .ok token ∧ token.isComment = true

theorem areComments_nil : AreComments [] :=
  List.forall_mem_nil _

theorem AreComments.cons {span : Span} {token : Form} {spans : List Span}
    (hToken : span.classify = .ok token) (hComment : token.isComment = true)
    (h : AreComments spans) : AreComments (span :: spans) :=
  List.forall_mem_cons.mpr ⟨⟨token, hToken, hComment⟩, h⟩

/-- Comments have tokens, none of which is left without comments. -/
theorem AreComments.exists_classified {spans : List Span} (h : AreComments spans) :
    ∃ tokens, Classified spans tokens ∧ withoutComments tokens = [] := by
  induction spans with
  | nil => exact ⟨[], .nil, rfl⟩
  | cons span rest ih =>
      obtain ⟨⟨token, hToken, hComment⟩, hRest⟩ := List.forall_mem_cons.mp h
      obtain ⟨tokens, hTokens, hNone⟩ := ih hRest
      refine ⟨token :: tokens, .cons hToken hTokens, ?_⟩
      rw [withoutComments_cons_of_isComment hComment, hNone]

namespace Thinned

variable {σ : Similarity}

theorem refl (hSpan : ∀ span, σ.span span span) (spans : List Span) : Thinned σ spans spans := by
  induction spans with
  | nil => exact .nil
  | cons span rest ih => exact .keep (hSpan span) ih

theorem comments_append {comments spans spans' : List Span} (hComments : AreComments comments)
    (h : Thinned σ spans spans') : Thinned σ (comments ++ spans) spans' := by
  induction comments with
  | nil => exact h
  | cons comment others ih =>
      obtain ⟨⟨token, hToken, hComment⟩, hOthers⟩ := List.forall_mem_cons.mp hComments
      exact .drop hToken hComment (ih hOthers)

theorem append_left (hSpan : ∀ span, σ.span span span) (first : List Span)
    {spans spans' : List Span} (h : Thinned σ spans spans') :
    Thinned σ (first ++ spans) (first ++ spans') := by
  induction first with
  | nil => exact h
  | cons span rest ih => exact .keep (hSpan span) ih

end Thinned

namespace Assembly

variable {σ : Similarity} {nesting : Nesting}

/-- Accepting a comment changes at most the finished forms. -/
theorem exists_step_of_isComment (nesting : Nesting) {token : Form} (h : token.isComment = true)
    (assembly : Assembly) (span : Span) :
    ∃ forms, Step nesting assembly token span { assembly with forms } ∧
      (forms = assembly.forms ∨ forms = token :: assembly.forms) := by
  obtain ⟨frames, forms⟩ := assembly
  cases token with
  | comment depth text =>
      cases frames with
      | nil => exact ⟨_, .keepComment, .inr rfl⟩
      | cons frame outer => exact ⟨_, .dropComment, .inl rfl⟩
  | _ => cases h

/-- Runs end alike if comments are left out, provided that finished forms stand for each other
whether or not comments are among them. -/
theorem run_thinned {spans spans' : List Span} (hSpans : Thinned σ spans spans')
    (hDrop : ∀ comment forms forms', comment.isComment = true → σ.forms forms forms' →
      σ.forms (comment :: forms) forms')
    {left right : Assembly} (h : left.Similar σ right) :
    RunsAlike σ (left.run nesting spans) (right.run nesting spans') := by
  induction hSpans generalizing left right with
  | nil => exact .ok h
  | keep hSpan _ ih =>
      rw [run_cons, run_cons]
      exact (acceptSpan_similar h hSpan).bind fun _ _ hNext => ih hNext
  | @drop span spans spans' token hToken hComment _ ih =>
      obtain ⟨forms, step, hForms⟩ := exists_step_of_isComment nesting hComment left span
      rw [run_cons_of_step hToken step]
      refine ih ⟨h.frames, ?_⟩
      rcases hForms with rfl | rfl
      · exact h.forms
      · exact hDrop token _ _ hComment h.forms

end Assembly

/-- The lexemes of which the tokens are no comments. -/
theorem Classified.exists_thinned {spans : List Span} {tokens : List Form}
    (h : Classified spans tokens) :
    ∃ others, Classified others (withoutComments tokens) ∧
      Thinned .butComments spans others := by
  induction h with
  | nil => exact ⟨[], .nil, .nil⟩
  | @cons span token spans tokens hToken _ ih =>
      obtain ⟨others, hOthers, hThinned⟩ := ih
      cases hComment : token.isComment with
      | true =>
          rw [withoutComments_cons_of_isComment hComment]
          exact ⟨others, hOthers, .drop hToken hComment hThinned⟩
      | false =>
          rw [withoutComments_cons hComment]
          exact ⟨span :: others, .cons hToken hOthers, .keep rfl hThinned⟩

/-- A run is as good as the run without comments. -/
theorem Classified.exists_run_withoutComments (nesting : Nesting) {spans : List Span}
    {tokens : List Form} (h : Classified spans tokens) :
    ∃ others, Classified others (withoutComments tokens) ∧
      RunsAlike .butComments (Assembly.empty.run nesting spans)
        (Assembly.empty.run nesting others) := by
  obtain ⟨others, hOthers, hThinned⟩ := h.exists_thinned
  refine ⟨others, hOthers, Assembly.run_thinned hThinned ?_ ⟨.nil, rfl⟩⟩
  intro comment forms forms' hComment hForms
  exact (withoutComments_cons_of_isComment hComment forms).trans hForms

end LispReader
