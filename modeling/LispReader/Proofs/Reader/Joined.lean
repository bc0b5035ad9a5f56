import LispReader.Proofs.Lexeme.Joined
import LispReader.Proofs.Reader.Completion

/-!
Reading depends on the lexemes alone. What stands between the lexemes of a text, and where they
stand, comes to light in the places of failures only, so a text is read like its lexemes written one
to a line.
-/

namespace LispReader

open Lexeme

/-- A failure without its place. -/
def ReadError.unplaced : ReadError → ReadError
  | .lexeme fault _ => .lexeme fault none
  | .structural fault _ => .structural fault none

/-- Of what is reported of a failure, the place alone is left out. -/
theorem ReadError.report?_unplaced (error : ReadError) :
    error.unplaced.report? =
      error.report?.map fun report => { report with line := none, column := none } := by
  cases error with
  | lexeme fault position => cases fault <;> rfl
  | structural fault position => rfl

theorem ReadError.Similar.unplaced_eq {left right : ReadError}
    (h : left.Similar .anywhere right) : left.unplaced = right.unplaced := by
  cases h <;> rfl

/-- Runs that are alike but for places conclude in the same way, but for places. -/
theorem RunsAlike.conclude_anywhere {left right : Except Refusal Assembly}
    (h : RunsAlike .anywhere left right) (keepComments : Bool) :
    (Assembly.conclude keepComments left).mapError ReadError.unplaced =
      (Assembly.conclude keepComments right).mapError ReadError.unplaced := by
  cases h with
  | error h => exact congrArg Except.error h.unplaced_eq
  | @ok left right h =>
      have hEnd := Assembly.endOfInput_similar h
      have hForms : left.forms = right.forms := h.forms
      simp only [Assembly.conclude, Assembly.finish, hForms]
      generalize left.endOfInput? = leftEnd at hEnd
      generalize right.endOfInput? = rightEnd at hEnd
      cases hEnd with
      | none => rfl
      | some hError => exact congrArg Except.error hError.unplaced_eq

/-- Texts with the same lexemes are read to the same forms, or fail in the same way at places of
their own. -/
theorem readText_congr_lexemes {first second : List Char} (h : lexemes first = lexemes second)
    (keepComments : Bool) (maxDepth : Int) :
    (readText first keepComments maxDepth).mapError ReadError.unplaced =
      (readText second keepComments maxDepth).mapError ReadError.unplaced := by
  have hSpans : List.Forall₂ Similarity.anywhere.span (scan first) (scan second) := by
    have hChars : List.Forall₂ (· = ·) ((scan first).map Span.chars)
        ((scan second).map Span.chars) := by
      rw [List.forall₂_eq_eq_eq]
      exact h
    rwa [List.forall₂_map_left_iff, List.forall₂_map_right_iff] at hChars
  rw [readText_eq_conclude, readText_eq_conclude]
  exact (Assembly.run_similar hSpans ⟨.nil, rfl⟩).conclude_anywhere keepComments

/-- The lexemes of a text, written one to a line, are the lexemes of the lines, and each of them is
one lexeme when it stands alone. So the lines are read to the forms of the text, or fail with the
same fault at a place of their own. -/
theorem readText_intercalate_lexemes (text : List Char) :
    lexemes (['\n'].intercalate (lexemes text)) = lexemes text ∧
    (∀ lexeme ∈ lexemes text, scan lexeme = [⟨0, lexeme.length, lexeme⟩]) ∧
    ∀ (keepComments : Bool) (maxDepth : Int),
      (readText (['\n'].intercalate (lexemes text)) keepComments maxDepth).mapError
          ReadError.unplaced =
        (readText text keepComments maxDepth).mapError ReadError.unplaced :=
  ⟨lexemes_intercalate text, fun _ h => scan_of_mem_lexemes h,
    readText_congr_lexemes (lexemes_intercalate text)⟩

/-- In `# "a)"('b"\` the mark `#` stands alone, a string and a parenthesis touch, and the last atom
holds a quote and ends in a backslash. -/
theorem readText_intercalate_lexemes_of_touching :
    let text := ['#', ' ', '"', 'a', ')', '"', '(', '\'', 'b', '"', '\\']
    ['b', '"', '\\'] ∈ lexemes text ∧ scan ['b', '"', '\\'] = [⟨0, 3, ['b', '"', '\\']⟩] ∧
      (readText (['\n'].intercalate (lexemes text)) false 256).mapError ReadError.unplaced =
        .error (.structural .unterminatedList none) := by
  intro text
  have hMem : ['b', '"', '\\'] ∈ lexemes text := by decide +kernel
  have hScan : scan text = [⟨0, 1, text⟩, ⟨2, 6, text⟩, ⟨6, 7, text⟩, ⟨7, 8, text⟩,
      ⟨8, 11, text⟩] := by
    decide +kernel
  obtain ⟨-, hAlone, hRead⟩ := readText_intercalate_lexemes text
  refine ⟨hMem, hAlone _ hMem, ?_⟩
  rw [hRead, readText_eq_conclude, hScan]
  rfl

end LispReader
