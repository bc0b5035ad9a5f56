import Mathlib.Data.List.Forall2
import LispReader.Proofs.Lexeme.Sequence
import LispReader.Reader.Basic

/-!
Runs: an assembly and the lexemes that are fed to it one after the other, until one is refused.
Reading a whole text is a run over its lexemes, and a question about what it ends in.
-/

namespace LispReader

/-- Lexemes and the tokens that they mean, one by one. -/
def Classified (spans : List Span) (tokens : List Form) : Prop :=
  List.Forall₂ (fun span token => span.classify = .ok token) spans tokens

theorem Span.classify_eq_ok_iff {span : Span} {token : Form} :
    span.classify = .ok token ↔ Lexeme.classify span.chars = .ok token := by
  unfold Span.classify
  cases Lexeme.classify span.chars with
  | ok form => simp
  | error fault => simp

/-- The tokens of a text depend on the characters of its lexemes alone. -/
theorem classified_scan_iff {text : List Char} {tokens : List Form} :
    Classified (scan text) tokens ↔
      List.Forall₂ (fun lexeme token => Lexeme.classify lexeme = .ok token)
        (Lexeme.lexemes text) tokens := by
  unfold Lexeme.lexemes Classified
  rw [List.forall₂_map_left_iff]
  simp only [Span.classify_eq_ok_iff]

namespace Classified

@[simp]
theorem nil_right_iff {spans : List Span} : Classified spans [] ↔ spans = [] :=
  List.forall₂_nil_right_iff

theorem cons_right_iff {spans : List Span} {token : Form} {tokens : List Form} :
    Classified spans (token :: tokens) ↔
      ∃ span others, span.classify = .ok token ∧ Classified others tokens ∧
        spans = span :: others :=
  List.forall₂_cons_right_iff

/-- Where tokens are cut in two, so are their lexemes. -/
theorem append_right_iff {spans : List Span} {first second : List Form} :
    Classified spans (first ++ second) ↔
      ∃ before after, Classified before first ∧ Classified after second ∧
        spans = before ++ after := by
  constructor
  · intro h
    exact ⟨_, _, List.forall₂_take_append spans first second h,
      List.forall₂_drop_append spans first second h, (List.take_append_drop _ spans).symm⟩
  · rintro ⟨before, after, hFirst, hSecond, rfl⟩
    exact List.rel_append hFirst hSecond

/-- Lexemes that are in front have their own tokens in front. -/
theorem append_left {first rest : List Span} {own tokens : List Form}
    (h : Classified (first ++ rest) tokens) (hFirst : Classified first own) :
    ∃ others, tokens = own ++ others ∧ Classified rest others := by
  induction hFirst generalizing tokens with
  | nil => exact ⟨tokens, rfl, h⟩
  | @cons span token first own hToken _ ih =>
      obtain ⟨token', behind, hToken', hBehind, rfl⟩ := List.forall₂_cons_left_iff.mp h
      obtain rfl : token = token' := Except.ok.inj (hToken.symm.trans hToken')
      obtain ⟨others, rfl, hOthers⟩ := ih hBehind
      exact ⟨others, rfl, hOthers⟩

end Classified

namespace Feeding

/-- The assembly that feeding ends in, or the refusal that has stopped it. -/
def result (feeding : Feeding) : Except Refusal Assembly :=
  match feeding.refusal with
  | some refusal => .error refusal
  | none => .ok feeding.assembly

end Feeding

namespace Assembly

/-- Accepts the lexemes of a list in order. -/
def run (nesting : Nesting) (assembly : Assembly) (spans : List Span) :
    Except Refusal Assembly :=
  spans.foldlM (acceptSpan nesting) assembly

@[simp]
theorem run_nil (nesting : Nesting) (assembly : Assembly) :
    assembly.run nesting [] = .ok assembly := rfl

theorem run_cons (nesting : Nesting) (assembly : Assembly) (span : Span) (spans : List Span) :
    assembly.run nesting (span :: spans) =
      assembly.acceptSpan nesting span >>= fun next => next.run nesting spans := rfl

/-- A run over two lists is a run over the first one that goes on over the second. -/
theorem run_append (nesting : Nesting) (assembly : Assembly) (first second : List Span) :
    assembly.run nesting (first ++ second) =
      assembly.run nesting first >>= fun next => next.run nesting second :=
  List.foldlM_append

/-- Feeding that never has enough is a run. -/
theorem result_feed_never (nesting : Nesting) (assembly : Assembly) (spans : List Span) :
    (assembly.feed nesting (fun _ => false) spans).result = assembly.run nesting spans := by
  induction spans generalizing assembly with
  | nil => rfl
  | cons span spans ih =>
      rw [run_cons]
      cases hAccept : assembly.acceptSpan nesting span with
      | error refusal => simp [feed_cons, hAccept, Feeding.result, bind, Except.bind]
      | ok next => simpa [feed_cons, hAccept, bind, Except.bind] using ih next

theorem run_append_of_eq_ok {nesting : Nesting} {assembly next : Assembly} {first : List Span}
    (h : assembly.run nesting first = .ok next) (second : List Span) :
    assembly.run nesting (first ++ second) = next.run nesting second := by
  rw [run_append, h]
  rfl

/-- A lexeme is accepted if it has a token and the token is accepted. -/
theorem acceptSpan_eq_ok_iff {nesting : Nesting} {assembly next : Assembly} {span : Span} :
    assembly.acceptSpan nesting span = .ok next ↔
      ∃ token, span.classify = .ok token ∧ assembly.accept nesting token span = .ok next := by
  unfold acceptSpan
  cases span.classify with
  | error error => simp [acceptMeaning]
  | ok token => simp [acceptMeaning]

theorem run_cons_eq_ok_iff {nesting : Nesting} {assembly last : Assembly} {span : Span}
    {spans : List Span} :
    assembly.run nesting (span :: spans) = .ok last ↔
      ∃ next, assembly.acceptSpan nesting span = .ok next ∧ next.run nesting spans = .ok last := by
  rw [run_cons]
  cases assembly.acceptSpan nesting span with
  | error refusal => simp [bind, Except.bind]
  | ok next => simp [bind, Except.bind]

/-- A run is refused at one of its lexemes, when those in front of it have been accepted. -/
theorem exists_of_run_eq_error {nesting : Nesting} {start : Assembly} {spans : List Span}
    {refusal : Refusal} (h : start.run nesting spans = .error refusal) :
    ∃ before span behind last, spans = before ++ span :: behind ∧
      start.run nesting before = .ok last ∧ last.acceptSpan nesting span = .error refusal := by
  induction spans generalizing start with
  | nil => cases h
  | cons span rest ih =>
      rw [run_cons] at h
      cases hAccept : start.acceptSpan nesting span with
      | error first =>
          rw [hAccept] at h
          cases h
          exact ⟨[], span, rest, start, rfl, rfl, hAccept⟩
      | ok next =>
          rw [hAccept] at h
          obtain ⟨before, other, behind, last, rfl, hRun, hRefused⟩ := ih h
          exact ⟨span :: before, other, behind, last, rfl,
            run_cons_eq_ok_iff.mpr ⟨next, hAccept, hRun⟩, hRefused⟩

end Assembly

/-- What is left to be said of a text when all of its lexemes are accepted: the forms, among which
only comments may be dropped, or what is wrong if the text ends here. -/
def Assembly.finish (keepComments : Bool) (assembly : Assembly) : Except ReadError (List Form) :=
  match assembly.endOfInput? with
  | some error => .error error
  | none => .ok (assembly.forms.reverse.filter fun form => keepComments || !form.isComment)

theorem Assembly.finish_eq_ok_iff {keepComments : Bool} {assembly : Assembly} {forms : List Form} :
    assembly.finish keepComments = .ok forms ↔
      assembly.frames = [] ∧
        assembly.forms.reverse.filter (fun form => keepComments || !form.isComment) = forms := by
  unfold finish endOfInput?
  cases assembly.frames with
  | nil => simp
  | cons frame outer => simp

/-- What a run comes to when the text ends after it. -/
def Assembly.conclude (keepComments : Bool) :
    Except Refusal Assembly → Except ReadError (List Form)
  | .error refusal => .error refusal.error
  | .ok assembly => assembly.finish keepComments

/-- Reading a text is a run over its lexemes, from the empty assembly. -/
theorem readText_eq_conclude (text : List Char) (keepComments : Bool) (maxDepth : Int) :
    readText text keepComments maxDepth =
      Assembly.conclude keepComments
        (Assembly.empty.run { base := 0, limit := maxDepth } (scan text)) := by
  rw [← Assembly.result_feed_never]
  rw [readText, Reader.read_def, Reader.drive_def]
  simp only [Reader.formsOf, Reader.ofText, Reader.nesting, Feeding.result, Assembly.conclude,
    Assembly.finish]
  generalize Assembly.feed _ _ _ _ = feeding
  obtain ⟨assembly, pending, refusal⟩ := feeding
  cases refusal with
  | some refusal => rfl
  | none => cases hEnd : assembly.endOfInput? <;> simp [hEnd]

/-- A text is read if the run over its lexemes ends outside of all frames. -/
theorem readText_eq_ok_iff {text : List Char} {keepComments : Bool} {maxDepth : Int}
    {forms : List Form} :
    readText text keepComments maxDepth = .ok forms ↔
      ∃ assembly, Assembly.empty.run { base := 0, limit := maxDepth } (scan text) = .ok assembly ∧
        assembly.frames = [] ∧
        assembly.forms.reverse.filter (fun form => keepComments || !form.isComment) = forms := by
  rw [readText_eq_conclude]
  cases Assembly.empty.run { base := 0, limit := maxDepth } (scan text) with
  | error refusal => simp [Assembly.conclude]
  | ok assembly => simp [Assembly.conclude, Assembly.finish_eq_ok_iff]

end LispReader
