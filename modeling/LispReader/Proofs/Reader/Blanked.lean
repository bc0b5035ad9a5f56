import LispReader.Proofs.Lexeme.Blanked
import LispReader.Proofs.Lexeme.Meaning
import LispReader.Proofs.Reader.Comment

/-!
Comments are inert. With its comments blanked out a text has the same lexemes at the same places but
for the comments, and comments do nothing in a run, so the text is read to the same forms, or fails
with the same failure.
-/

namespace LispReader

open Lexeme

/-- The same characters at the same position, and the same finished forms but for comments. -/
def Similarity.inPlace : Similarity where
  span left right := left.chars = right.chars ∧ left.position = right.position
  forms left right := withoutComments left = withoutComments right
  chars_eq h := h.1
  cons form h := Similarity.butComments.cons form h

theorem ReadError.Similar.eq_of_inPlace {left right : ReadError}
    (h : left.Similar .inPlace right) : left = right := by
  cases h with
  | lexeme fault hSpan | structural fault hSpan => rw [hSpan.2]

/-- Runs that are alike but for comments conclude in the same way where comments are dropped. -/
theorem RunsAlike.conclude_inPlace {left right : Except Refusal Assembly}
    (h : RunsAlike .inPlace left right) :
    Assembly.conclude false left = Assembly.conclude false right := by
  cases h with
  | error h => exact congrArg Except.error h.eq_of_inPlace
  | @ok left right h =>
      have hEnd := Assembly.endOfInput_similar h
      have hForms : withoutComments left.forms.reverse = withoutComments right.forms.reverse := by
        rw [withoutComments_reverse, withoutComments_reverse]
        exact congrArg List.reverse h.forms
      simp only [Assembly.conclude, Assembly.finish]
      generalize left.endOfInput? = leftEnd at hEnd
      generalize right.endOfInput? = rightEnd at hEnd
      cases hEnd with
      | none => exact congrArg Except.ok hForms
      | some hError => exact congrArg Except.error hError.eq_of_inPlace

/-- A lexeme that begins with a semicolon means a comment. -/
theorem classify_comment (rest : List Char) :
    ∃ depth words, classify (';' :: rest) = .ok (.comment depth words) :=
  ⟨_, _, rfl⟩

theorem Lexeme.Placed.exists_of_isComment {lexeme : Placed} {text : List Char}
    (hChars : (lexeme.span text).chars = lexeme.chars) (h : lexeme.isComment = true) :
    ∃ token, (lexeme.span text).classify = .ok token ∧ token.isComment = true := by
  obtain ⟨rest, hRest⟩ : ∃ rest, lexeme.chars = ';' :: rest :=
    List.head?_eq_some_iff.mp (eq_of_beq h)
  obtain ⟨depth, words, hMeaning⟩ := classify_comment rest
  refine ⟨.comment depth words, ?_, rfl⟩
  rw [Span.classify_eq_ok_iff, hChars, hRest, hMeaning]

/-- Blanking out comments leaves the spans of a text without the comments. -/
theorem thinned_blankComments (text : List Char) :
    Thinned .inPlace (scan text) (scan (blankComments text)) := by
  obtain ⟨lexemes, hScan, hBlanked, hLexemes⟩ := scan_blankComments text
  rw [hScan, hBlanked]
  clear hScan hBlanked
  induction lexemes with
  | nil => exact .nil
  | cons lexeme others ih =>
      obtain ⟨⟨hChars, hKept⟩, hOthers⟩ := List.forall_mem_cons.mp hLexemes
      have hRest := ih hOthers
      cases hComment : lexeme.isComment with
      | true =>
          obtain ⟨token, hToken, hIsComment⟩ := Placed.exists_of_isComment hChars hComment
          rw [List.filter_cons_of_neg (by simp [hComment]), List.map_cons]
          exact .drop hToken hIsComment hRest
      | false =>
          obtain ⟨hChars', hPosition⟩ := hKept hComment
          rw [List.filter_cons_of_pos (by simp [hComment]), List.map_cons, List.map_cons]
          exact .keep ⟨hChars.trans hChars'.symm, hPosition.symm⟩ hRest

/-- Where comments are dropped, a text is read as if there were spaces in their place: to the same
forms, or with the same failure at the same position. -/
theorem readText_blankComments (text : List Char) (maxDepth : Int) :
    readText (blankComments text) false maxDepth = readText text false maxDepth := by
  have hRuns : RunsAlike .inPlace
      (Assembly.empty.run { base := 0, limit := maxDepth } (scan text))
      (Assembly.empty.run { base := 0, limit := maxDepth } (scan (blankComments text))) := by
    refine Assembly.run_thinned (thinned_blankComments text) ?_ ⟨.nil, rfl⟩
    intro comment forms forms' hComment hForms
    exact (withoutComments_cons_of_isComment hComment forms).trans hForms
  rw [readText_eq_conclude, readText_eq_conclude, hRuns.conclude_inPlace]

end LispReader
