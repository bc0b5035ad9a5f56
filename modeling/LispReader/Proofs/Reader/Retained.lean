import LispReader.Proofs.Reader.Level

/-!
Comments that are kept. Keeping them changes nothing but that they stand among the forms. Those
that stand there are the ones outside of all lists that do not come between a quote mark and its
form, each at its place between the forms.
-/

namespace LispReader

/-- What there is to be seen along a text, leaving aside what is inside of forms. -/
inductive Landmark where
  | comment (token : Form)
  /-- A form, which is complete with its last token. -/
  | form

namespace Landmark

def ofForm (form : Form) : Landmark :=
  if form.isComment then .comment form else .form

/-- What is to be seen at a token, by what is open in front of it. -/
def at? (openings : List Opening) (token : Form) : Option Landmark :=
  if token.isComment then
    if openings.isEmpty then some (.comment token) else none
  else if (Opening.after openings token).isEmpty then some .form
  else none

/-- What is to be seen along tokens. -/
def along (openings : List Opening) : List Form → List Landmark
  | [] => []
  | token :: rest => (at? openings token).toList ++ along (Opening.after openings token) rest

theorem along_concat (openings : List Opening) (tokens : List Form) (token : Form) :
    along openings (tokens ++ [token]) =
      along openings tokens ++ (at? (tokens.foldl Opening.after openings) token).toList := by
  induction tokens generalizing openings with
  | nil => simp [along]
  | cons first rest ih => simp [along, ih]

theorem at?_of_not_isComment {token : Form} (h : token.isComment = false)
    (openings : List Opening) :
    at? openings token = if (Opening.after openings token).isEmpty then some .form else none := by
  simp [at?, h]

end Landmark

namespace Token

variable {α : Type}

theorem not_isComment_of_not_isStructural {token : Token α} (h : token.isStructural = false) :
    token.isComment = false := by
  cases token <;> first | rfl | cases h

end Token

namespace Assembly

variable {nesting : Nesting}

/-- No tail that has been read is a comment. -/
def TailsAreForms (frames : List Frame) : Prop :=
  ∀ opening items tail, Frame.closing opening items tail ∈ frames → tail.isComment = false

theorem tailsAreForms_deliver {form : Form} (hForm : form.isComment = false) (forms : List Form)
    {frames : List Frame} (h : TailsAreForms frames) :
    TailsAreForms (deliver forms form frames).frames := by
  induction frames generalizing form with
  | nil => exact h
  | cons frame outer ih =>
      have hOuter : TailsAreForms outer := fun opening items tail hFrame =>
        h opening items tail (List.mem_cons_of_mem _ hFrame)
      cases frame with
      | list opening items =>
          intro opening' items' tail hFrame
          exact hOuter _ _ _ (by simpa [deliver] using hFrame)
      | dotted opening dot items =>
          intro opening' items' tail hFrame
          rcases List.mem_cons.mp hFrame with hSame | hFrame
          · cases hSame
            exact hForm
          · exact hOuter _ _ _ hFrame
      | closing => exact h
      | quote mark operator => exact ih rfl hOuter

/-- A form that is handed over is seen outside of all frames if it leaves nothing open. -/
theorem map_ofForm_deliver {form : Form} (hForm : form.isComment = false) (forms : List Form)
    (frames : List Frame) :
    (deliver forms form frames).forms.reverse.map Landmark.ofForm =
      forms.reverse.map Landmark.ofForm ++
        (if (Opening.finish (frames.map Frame.opening)).isEmpty then some Landmark.form
          else none).toList := by
  induction frames generalizing form with
  | nil => simp [deliver, Opening.finish, Landmark.ofForm, hForm]
  | cons frame outer ih =>
      cases frame with
      | quote mark operator => exact ih rfl
      | _ => simp [deliver, Opening.finish, Frame.opening]

/-- What is open is what the frames stand for, and the finished forms are what has been seen. -/
structure Sees (tokens : List Form) (assembly : Assembly) : Prop where
  frames : assembly.frames.map Frame.opening = Opening.ofTokens tokens
  tails : TailsAreForms assembly.frames
  forms : assembly.forms.reverse.map Landmark.ofForm = Landmark.along [] tokens

theorem sees_empty : Sees [] empty :=
  ⟨rfl, by simp [TailsAreForms, empty], rfl⟩

/-- A step adds to the finished forms what is to be seen at its token. -/
theorem Step.map_ofForm {assembly next : Assembly} {token : Form} {span : Span}
    (step : Step nesting assembly token span next) (hTails : TailsAreForms assembly.frames) :
    next.forms.reverse.map Landmark.ofForm =
      assembly.forms.reverse.map Landmark.ofForm ++
        (Landmark.at? (assembly.frames.map Frame.opening) token).toList := by
  cases step with
  | keepComment => simp [Landmark.at?, Landmark.ofForm, Token.isComment]
  | dropComment => simp [Landmark.at?, Token.isComment]
  | atom takes isAtom =>
      have hForm := Token.not_isComment_of_not_isStructural isAtom
      rw [map_ofForm_deliver hForm, Landmark.at?_of_not_isComment hForm,
        Opening.after_of_isAtom isAtom]
  | openList | openQuote | dot =>
      simp [Landmark.at?, Token.isComment, Opening.after, Frame.opening]
  | closeList => exact map_ofForm_deliver (Token.not_isComment_chain rfl _) _ _
  | closeDotted =>
      have hTail := hTails _ _ _ List.mem_cons_self
      exact map_ofForm_deliver (Token.not_isComment_chain hTail _) _ _

theorem Step.tailsAreForms {assembly next : Assembly} {token : Form} {span : Span}
    (step : Step nesting assembly token span next) (h : TailsAreForms assembly.frames) :
    TailsAreForms next.frames := by
  cases step with
  | keepComment | dropComment => exact h
  | atom takes isAtom =>
      exact tailsAreForms_deliver (Token.not_isComment_of_not_isStructural isAtom) _ h
  | openList | openQuote =>
      intro opening items tail hFrame
      exact h opening items tail (by simpa using hFrame)
  | dot =>
      intro opening items tail hFrame
      exact h opening items tail (List.mem_cons_of_mem _ (by simpa using hFrame))
  | closeList =>
      refine tailsAreForms_deliver (Token.not_isComment_chain rfl _) _ ?_
      exact fun opening items tail hFrame => h opening items tail (List.mem_cons_of_mem _ hFrame)
  | closeDotted =>
      refine tailsAreForms_deliver
        (Token.not_isComment_chain (h _ _ _ List.mem_cons_self) _) _ ?_
      exact fun opening items tail hFrame => h opening items tail (List.mem_cons_of_mem _ hFrame)

theorem Sees.step {tokens : List Form} {assembly next : Assembly} {token : Form} {span : Span}
    (h : Sees tokens assembly) (step : Step nesting assembly token span next) :
    Sees (tokens ++ [token]) next where
  frames := by rw [Opening.ofTokens_concat, ← h.frames, step.map_opening]
  tails := step.tailsAreForms h.tails
  forms := by
    rw [step.map_ofForm h.tails, h.forms, h.frames, Landmark.along_concat]
    rfl

theorem Sees.run {spans : List Span} {before tokens : List Form} {start last : Assembly}
    (h : Sees before start) (hTokens : Classified spans tokens)
    (hRun : start.run nesting spans = .ok last) : Sees (before ++ tokens) last :=
  run_induction (fun _ _ _ _ _ => Sees.step) h hTokens hRun

/-- What a run comes to is the same but for comments, whether or not they are kept. -/
theorem conclude_true_eq_error_iff {result : Except Refusal Assembly} {error : ReadError} :
    conclude true result = .error error ↔ conclude false result = .error error := by
  cases result with
  | error refusal => rfl
  | ok assembly =>
      simp only [conclude, finish]
      cases assembly.endOfInput? with
      | some failure => exact Iff.rfl
      | none => simp

end Assembly

/-- Comments that are kept are an addition. A text is refused with them as it is without them.
A text that is read gives the same forms with them, and they stand among the forms as they stand in
the text outside of all lists and not behind a quote mark that waits for its form. -/
theorem readText_keepComments (text : List Char) (maxDepth : Int) :
    (∀ error, readText text true maxDepth = .error error ↔
      readText text false maxDepth = .error error) ∧
    ∀ forms, readText text true maxDepth = .ok forms →
      readText text false maxDepth = .ok (withoutComments forms) ∧
        ∃ tokens, Classified (scan text) tokens ∧
          forms.map Landmark.ofForm = Landmark.along [] tokens := by
  refine ⟨?_, ?_⟩
  · intro error
    rw [readText_eq_conclude, readText_eq_conclude]
    exact Assembly.conclude_true_eq_error_iff
  · intro forms hRead
    obtain ⟨last, hRun, hClosed, hForms⟩ := readText_eq_ok_iff.mp hRead
    obtain rfl : last.forms.reverse = forms := by simpa using hForms
    refine ⟨readText_eq_ok_iff.mpr ⟨last, hRun, hClosed, rfl⟩, ?_⟩
    obtain ⟨tokens, hTokens⟩ := exists_classified_of_run hRun
    exact ⟨tokens, hTokens, (Assembly.sees_empty.run hTokens hRun).forms⟩

theorem readText_keepComments_of_list_and_quote :
    readText ['(', ';', 'a', '\n', ')', '\'', ';', 'b', '\n', 'c', ' ', ';', 'd'] true 9 =
        .ok [.emptyList, .quoteForm (.text "quote") (.symbol (.text "c")),
          .comment (.int 1) (.text "d")] ∧
      readText ['(', ';', 'a', '\n', ')', '\'', ';', 'b', '\n', 'c', ' ', ';', 'd'] false 9 =
        .ok [.emptyList, .quoteForm (.text "quote") (.symbol (.text "c"))] ∧
      ∃ tokens, Classified
          (scan ['(', ';', 'a', '\n', ')', '\'', ';', 'b', '\n', 'c', ' ', ';', 'd']) tokens ∧
        [.form, .form, .comment (.comment (.int 1) (.text "d"))] = Landmark.along [] tokens := by
  generalize hText : ['(', ';', 'a', '\n', ')', '\'', ';', 'b', '\n', 'c', ' ', ';', 'd'] = text
  have hScan : scan text =
      [⟨0, 1, text⟩, ⟨1, 3, text⟩, ⟨4, 5, text⟩, ⟨5, 6, text⟩, ⟨6, 8, text⟩, ⟨9, 10, text⟩,
        ⟨11, 13, text⟩] := by
    subst hText
    decide +kernel
  have hRead : readText text true 9 =
      .ok [.emptyList, .quoteForm (.text "quote") (.symbol (.text "c")),
        .comment (.int 1) (.text "d")] := by
    rw [readText_eq_conclude, hScan]
    subst hText
    rfl
  exact ⟨hRead, (readText_keepComments text 9).2 _ hRead⟩

end LispReader
