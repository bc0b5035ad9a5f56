import LispReader.Proofs.Lexeme.Append
import LispReader.Proofs.Lexeme.Meaning
import LispReader.Proofs.Reader.Grammar

/-!
Reading a text with a line behind it. Where the text is read whole, nothing of it is left when the
line begins: no frame is open, and the lexemes of the line are the same as if it stood alone. So the
forms of both come one after the other, and a failure in the line is the same failure further down.
-/

namespace LispReader

open Lexeme (isOpen isOpenAtom isOpenString_of_classify)

/-- The same failure, a number of lines further down. -/
def ReadError.down (lines : Nat) : ReadError → ReadError
  | .lexeme fault position => .lexeme fault (position.map (.down lines))
  | .structural fault position => .structural fault (position.map (.down lines))

theorem ReadError.down_zero (error : ReadError) : error.down 0 = error := by
  cases error with
  | lexeme fault position | structural fault position => cases position <;> rfl

/-- Of what is reported of a failure only the line depends on what is in front of it. -/
theorem ReadError.report?_down (lines : Nat) (error : ReadError) :
    (error.down lines).report? =
      error.report?.map fun report =>
        { report with line := report.line.map fun line => line + lines } := by
  cases error with
  | lexeme fault position => cases fault <;> cases position <;> rfl
  | structural fault position => cases position <;> rfl

/-- Lexemes a number of lines further down, behind forms that were finished before. -/
def Similarity.below (lines : Nat) (finished : List Form) : Similarity where
  span := Span.Below lines
  forms lower upper := lower = upper ++ finished
  chars_eq h := h.chars_eq
  cons form h := by
    rw [h]
    rfl

section Below

variable {lines : Nat} {finished : List Form} {keepComments : Bool}

theorem ReadError.Similar.eq_down {lower upper : ReadError}
    (h : lower.Similar (.below lines finished) upper) : lower = upper.down lines := by
  cases h with
  | lexeme fault hSpan => rw [hSpan.position_eq]; rfl
  | structural fault hSpan => rw [hSpan.position_eq]; rfl

/-- Runs that are alike but for what was finished before conclude in the same way, behind it. -/
theorem RunsAlike.conclude_below {lower upper : Except Refusal Assembly}
    (h : RunsAlike (.below lines finished) lower upper) :
    Assembly.conclude keepComments lower =
      match Assembly.conclude keepComments upper with
      | .ok forms =>
        .ok ((finished.reverse.filter fun form => keepComments || !form.isComment) ++ forms)
      | .error failure => .error (failure.down lines) := by
  cases h with
  | error h =>
      simp only [Assembly.conclude]
      rw [h.eq_down]
  | @ok lower upper h =>
      have hEnd := Assembly.endOfInput_similar h
      have hForms : lower.forms = upper.forms ++ finished := h.forms
      simp only [Assembly.conclude, Assembly.finish]
      generalize lower.endOfInput? = lowerEnd at hEnd
      generalize upper.endOfInput? = upperEnd at hEnd
      cases hEnd with
      | none => simp [hForms]
      | some hError => rw [hError.eq_down]

end Below

variable {nesting : Nesting}

/-- The same lexemes at the same places end a run in the same way. -/
theorem run_below_zero (nesting : Nesting) {upper spans : List Span}
    (h : List.Forall₂ (Span.Below 0) upper spans) :
    RunsAlike (.below 0 []) (Assembly.empty.run nesting upper)
      (Assembly.empty.run nesting spans) :=
  Assembly.run_similar h ⟨.nil, rfl⟩

theorem run_eq_ok_of_below_zero {upper spans : List Span} {forms : List Form}
    (h : List.Forall₂ (Span.Below 0) upper spans)
    (hRun : Assembly.empty.run nesting spans = .ok ⟨[], forms⟩) :
    Assembly.empty.run nesting upper = .ok ⟨[], forms⟩ := by
  have hAlike := run_below_zero nesting h
  rw [hRun] at hAlike
  generalize Assembly.empty.run nesting upper = outcome at hAlike
  cases hAlike with
  | @ok assembly _ hSimilar =>
      obtain ⟨frames, done⟩ := assembly
      have hFrames : frames = [] := List.forall₂_nil_right_iff.mp hSimilar.frames
      have hForms : done = forms ++ [] := hSimilar.forms
      rw [hFrames, hForms, List.append_nil]

/-- Where all lexemes have tokens, only an atom can be open. -/
theorem isOpen_of_classified {spans : List Span} {tokens : List Form}
    (h : Classified spans tokens) {span : Span} (hMem : span ∈ spans) :
    isOpen span.chars = isOpenAtom span.chars := by
  have hToken : ∃ token, span.classify = .ok token := by
    induction h with
    | nil => cases hMem
    | cons hToken _ ih =>
        rcases List.mem_cons.mp hMem with rfl | hMem
        · exact ⟨_, hToken⟩
        · exact ih hMem
  obtain ⟨token, hToken⟩ := hToken
  rw [isOpen, isOpenString_of_classify (Span.classify_eq_ok_iff.mp hToken), Bool.false_or]

/-- Reading a text with a line behind it reads the text and then the line, if the text is read and
does not end in an atom that takes the line end along. -/
theorem readText_append_newline {first : List Char} {keepComments : Bool} {maxDepth : Int}
    {forms : List Form} (hFirst : readText first keepComments maxDepth = .ok forms)
    (hLast : ∀ span ∈ (scan first).getLast?, isOpenAtom span.chars = false)
    (second : List Char) :
    readText (first ++ '\n' :: second) keepComments maxDepth =
      match readText second keepComments maxDepth with
      | .ok others => .ok (forms ++ others)
      | .error error => .error (error.down (first.count '\n' + 1)) := by
  obtain ⟨⟨frames, done⟩, hRun, hFrames, rfl⟩ := readText_eq_ok_iff.mp hFirst
  obtain rfl : frames = [] := hFrames
  obtain ⟨tokens, hTokens⟩ := exists_classified_of_run hRun
  have hOpen : ∀ span ∈ (scan first).getLast?, isOpen span.chars = false := by
    intro span hSpan
    rw [isOpen_of_classified hTokens (List.mem_of_getLast? hSpan)]
    exact hLast span hSpan
  obtain ⟨upper, lower, hScan, hUpper, hLower⟩ := scan_append_newline hOpen second
  have hStart : Assembly.Similar (.below (first.count '\n' + 1) done) ⟨[], done⟩ .empty :=
    ⟨.nil, rfl⟩
  rw [readText_eq_conclude, readText_eq_conclude, hScan,
    Assembly.run_append_of_eq_ok (run_eq_ok_of_below_zero hUpper hRun)]
  exact (Assembly.run_similar hLower hStart).conclude_below

theorem readText_append_newline_behind_comment :
    readText (['(', 'a', ')', '\n', ';'] ++ '\n' :: ['d', ' ', ')']) true 1 =
      .error (.structural .unexpectedClose (some ⟨3, 2⟩)) := by
  have hScan : scan ['(', 'a', ')', '\n', ';'] =
      [⟨0, 1, ['(', 'a', ')', '\n', ';']⟩, ⟨1, 2, ['(', 'a', ')', '\n', ';']⟩,
        ⟨2, 3, ['(', 'a', ')', '\n', ';']⟩, ⟨4, 5, ['(', 'a', ')', '\n', ';']⟩] := by
    decide +kernel
  have hFirst : readText ['(', 'a', ')', '\n', ';'] true 1 =
      .ok [.cons (.symbol (.text "a")) .emptyList, .comment (.int 1) (.text "")] := by
    rw [readText_eq_conclude, hScan]
    rfl
  have hLast : ∀ span ∈ (scan ['(', 'a', ')', '\n', ';']).getLast?,
      isOpenAtom span.chars = false := by
    rw [hScan]
    decide
  have hScan' : scan ['d', ' ', ')'] = [⟨0, 1, ['d', ' ', ')']⟩, ⟨2, 3, ['d', ' ', ')']⟩] := by
    decide +kernel
  have hSecond : readText ['d', ' ', ')'] true 1 =
      .error (.structural .unexpectedClose (some ⟨1, 2⟩)) := by
    rw [readText_eq_conclude, hScan']
    rfl
  rw [readText_append_newline hFirst hLast, hSecond]
  rfl

end LispReader
