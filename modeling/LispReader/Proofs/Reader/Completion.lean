import Mathlib.Data.List.Infix
import LispReader.Proofs.Reader.Append

/-!
Text that ends too early. A failure at the end of a text says that more is expected, and more can
always be given: a form where one is missing, and then the closing parentheses. Every other failure
is found in a lexeme, and nothing behind a text takes it back.
-/

namespace LispReader

open Lexeme (isOpen lexemes_nil lexemes_cons)

/-- Whether a wording begins with a text. -/
def BeginsWith (wording front : String) : Prop :=
  front.toList <+: wording.toList

theorem BeginsWith.refl (front : String) : BeginsWith front front :=
  List.prefix_rfl

theorem BeginsWith.append {wording front : String} (h : BeginsWith wording front)
    (rest : String) : BeginsWith (wording ++ rest) front := by
  unfold BeginsWith
  rw [String.toList_append]
  exact h.trans (List.prefix_append _ _)

/-- The beginnings of what is said of a text that ends too early. -/
def moreExpected : List String :=
  ["unterminated list, expected ", "expected a form after "]

namespace ReadError

/-- Whether a failure says that the text ends too early. -/
def AsksForMore (error : ReadError) : Prop :=
  ∃ front ∈ moreExpected, BeginsWith error.message front

/-- Whether a failure is found in a lexeme, not in there being no more of them. -/
def isFinal : ReadError → Bool
  | .structural (.missing _) _ | .structural .unterminatedList _ => false
  | _ => true

end ReadError

/-- The beginnings of what is said of every other failure. -/
def otherBeginnings : List String :=
  ["empty lexeme", "token parsing error on ", "integer out of 64-bit range in ",
    "float out of range in ", "unknown escape sequence \\", "unexpected characters after string ",
    "unterminated string ", "nothing to ", "Exceeds the limit (", "unexpected end of input",
    "no form to read", "unexpected trailing input", "unexpected ')'",
    "unexpected '.' outside of a list", "malformed dotted pair: ", "forms nested deeper than "]

/-- Neither kind of beginning is the front of one of the other kind. -/
theorem beginnings_apart :
    ∀ beginning ∈ moreExpected, ∀ front ∈ otherBeginnings,
      ¬ beginning.toList <+: front.toList ∧ ¬ front.toList <+: beginning.toList := by
  decide +kernel

theorem LexemeFault.exists_beginning (fault : LexemeFault) :
    ∃ front ∈ otherBeginnings, BeginsWith fault.message front := by
  cases fault with
  | empty => exact ⟨"empty lexeme", by simp [otherBeginnings], .refl _⟩
  | unmatched =>
      exact ⟨"token parsing error on ", by simp [otherBeginnings], (BeginsWith.refl _).append _⟩
  | integerRange =>
      exact ⟨"integer out of 64-bit range in ", by simp [otherBeginnings],
        (BeginsWith.refl _).append _⟩
  | floatRange =>
      exact ⟨"float out of range in ", by simp [otherBeginnings], (BeginsWith.refl _).append _⟩
  | unknownEscape =>
      exact ⟨"unknown escape sequence \\", by simp [otherBeginnings],
        (((BeginsWith.refl _).append _).append _).append _⟩
  | afterString =>
      exact ⟨"unexpected characters after string ", by simp [otherBeginnings],
        (BeginsWith.refl _).append _⟩
  | unterminatedString =>
      exact ⟨"unterminated string ", by simp [otherBeginnings], (BeginsWith.refl _).append _⟩
  | nothingToQuote =>
      exact ⟨"nothing to ", by simp [otherBeginnings],
        (((BeginsWith.refl _).append _).append _).append _⟩
  | tooManyDigits =>
      exact ⟨"Exceeds the limit (", by simp [otherBeginnings],
        (((BeginsWith.refl _).append _).append _).append _⟩

namespace ReadError

theorem exists_beginning {error : ReadError} (h : error.isFinal = true) :
    ∃ front ∈ otherBeginnings, BeginsWith error.message front := by
  cases error with
  | lexeme fault position => exact fault.exists_beginning
  | structural fault position =>
      cases fault with
      | missing | unterminatedList => cases h
      | endOfInput => exact ⟨"unexpected end of input", by simp [otherBeginnings], .refl _⟩
      | noForm => exact ⟨"no form to read", by simp [otherBeginnings], .refl _⟩
      | trailingInput => exact ⟨"unexpected trailing input", by simp [otherBeginnings], .refl _⟩
      | unexpectedClose => exact ⟨"unexpected ')'", by simp [otherBeginnings], .refl _⟩
      | strayDot =>
          exact ⟨"unexpected '.' outside of a list", by simp [otherBeginnings], .refl _⟩
      | nothingBeforeDot =>
          exact ⟨"malformed dotted pair: ", by simp [otherBeginnings],
            (BeginsWith.refl _).append "no form before '.'"⟩
      | nothingAfterDot =>
          exact ⟨"malformed dotted pair: ", by simp [otherBeginnings],
            (BeginsWith.refl _).append "no form after '.'"⟩
      | severalAfterDot =>
          exact ⟨"malformed dotted pair: ", by simp [otherBeginnings],
            (BeginsWith.refl _).append "more than one form after '.'"⟩
      | tooDeep =>
          exact ⟨"forms nested deeper than ", by simp [otherBeginnings],
            ((BeginsWith.refl _).append _).append _⟩

theorem not_asksForMore_of_isFinal {error : ReadError} (h : error.isFinal = true) :
    ¬ error.AsksForMore := by
  rintro ⟨beginning, hMem, hBegins⟩
  obtain ⟨front, hOther, hFront⟩ := exists_beginning h
  rcases List.prefix_or_prefix_of_prefix hBegins hFront with hLong | hShort
  · exact (beginnings_apart beginning hMem front hOther).1 hLong
  · exact (beginnings_apart beginning hMem front hOther).2 hShort

end ReadError

/-- The end of a text inside of a frame asks for more. -/
theorem Frame.asksForMore_endOfInput (frame : Frame) : frame.endOfInput.AsksForMore := by
  cases frame with
  | list | dotted | closing =>
      exact ⟨"unterminated list, expected ", by simp [moreExpected],
        (BeginsWith.refl "unterminated list, expected ").append "')'"⟩
  | quote =>
      exact ⟨"expected a form after ", by simp [moreExpected],
        (BeginsWith.refl "expected a form after ").append _⟩

/-- A token is refused for what it is at its place, not for there being no more of them. -/
structure Refusal.OfToken (refusal : Refusal) : Prop where
  structural : ∃ fault span, refusal.error = StructureFault.atSpan fault span
  isFinal : refusal.error.isFinal = true

namespace Assembly

variable {nesting : Nesting} {assembly : Assembly} {refusal : Refusal}

theorem Refuses.ofToken {token : Form} {span : Span}
    (h : Refuses nesting assembly token span refusal) : refusal.OfToken := by
  cases h <;> exact ⟨⟨_, _, rfl⟩, rfl⟩

/-- A run is refused for one of its lexemes. -/
theorem of_run_eq_error {spans : List Span} (h : assembly.run nesting spans = .error refusal) :
    refusal.OfToken ∨ ∃ span ∈ spans, ∃ fault, Lexeme.classify span.chars = .error fault ∧
      refusal.error = .lexeme fault (some span.position) := by
  obtain ⟨before, span, behind, last, rfl, -, hRefused⟩ := exists_of_run_eq_error h
  rcases cases_of_acceptSpan_eq_error hRefused with ⟨token, -, hToken⟩ | hFault
  · exact .inl hToken.ofToken
  · exact .inr ⟨span, by simp, hFault⟩

theorem isFinal_of_run {spans : List Span} (h : assembly.run nesting spans = .error refusal) :
    refusal.error.isFinal = true := by
  rcases of_run_eq_error h with hToken | ⟨span, -, fault, -, hError⟩
  · exact hToken.isFinal
  · rw [hError]
    rfl

end Assembly

/-- The number of frames that a closing parenthesis ends. -/
def openLists : List Frame → Nat
  | [] => 0
  | .quote _ _ :: outer => openLists outer
  | _ :: outer => openLists outer + 1

section Completion

variable {nesting : Nesting}

/-- Behind a form, closing parentheses end all frames. -/
theorem exists_run_closing (form : Form) (forms : List Form) (frames : List Frame)
    {spans : List Span} (h : Classified spans (List.replicate (openLists frames) .listEnd)) :
    ∃ done, (Assembly.deliver forms form frames).run nesting spans = .ok ⟨[], done⟩ := by
  induction frames generalizing form spans with
  | nil =>
      rw [Classified.nil_right_iff.mp h]
      exact ⟨form :: forms, rfl⟩
  | cons frame outer ih =>
      cases frame with
      | quote mark operator => exact ih _ h
      | list =>
          obtain ⟨span, others, hClose, hOthers, rfl⟩ := Classified.cons_right_iff.mp h
          rw [Assembly.deliver, Assembly.run_cons_of_step hClose .closeList]
          exact ih _ hOthers
      | dotted | closing =>
          obtain ⟨span, others, hClose, hOthers, rfl⟩ := Classified.cons_right_iff.mp h
          rw [Assembly.deliver, Assembly.run_cons_of_step hClose .closeDotted]
          exact ih _ hOthers

theorem classified_replicate_close (count : Nat) :
    Classified (scan (List.replicate count ')')) (List.replicate count .listEnd) := by
  rw [classified_scan_iff]
  induction count with
  | zero =>
      rw [List.replicate_zero, lexemes_nil]
      exact .nil
  | succ count ih =>
      rw [List.replicate_succ, List.replicate_succ, lexemes_cons rfl]
      exact .cons rfl ih

/-- An empty string is given where a form may begin, and then every list is closed. Neither opens
a frame, so the levels that are left do not matter. -/
theorem exists_completion (nesting : Nesting) (frames : List Frame) (forms : List Form) :
    ∃ text done, Assembly.run nesting ⟨frames, forms⟩ (scan text) = .ok ⟨[], done⟩ := by
  by_cases takes : TakesForm frames
  · have hTokens : Classified (scan ('"' :: '"' :: List.replicate (openLists frames) ')'))
        (.string (.text "") :: List.replicate (openLists frames) .listEnd) := by
      have hClosing := classified_replicate_close (openLists frames)
      rw [classified_scan_iff] at hClosing ⊢
      rw [lexemes_cons rfl]
      exact .cons rfl hClosing
    refine ⟨'"' :: '"' :: List.replicate (openLists frames) ')', ?_⟩
    obtain ⟨span, others, hString, hOthers, hScan⟩ := Classified.cons_right_iff.mp hTokens
    rw [hScan, Assembly.run_cons_of_step hString (.atom takes rfl)]
    exact exists_run_closing _ forms frames hOthers
  · -- Only a list whose tail has been read takes no form.
    rcases frames with _ | ⟨_ | _ | ⟨opening, items, tail⟩ | _, outer⟩
    case cons.closing =>
      have hTokens := classified_replicate_close (openLists outer + 1)
      refine ⟨List.replicate (openLists outer + 1) ')', ?_⟩
      obtain ⟨span, others, hClose, hOthers, hScan⟩ := Classified.cons_right_iff.mp hTokens
      rw [hScan, Assembly.run_cons_of_step hClose .closeDotted]
      exact exists_run_closing _ forms outer hOthers
    all_goals simp [TakesForm, Frame.takesForm] at takes

end Completion

/-- The same lexemes, wherever they stand. -/
def Similarity.anywhere : Similarity where
  span left right := left.chars = right.chars
  forms left right := left = right
  chars_eq h := h
  cons form h := by rw [h]

/-- A run over a text with a line behind it ends like a run over the lexemes of both. -/
theorem run_append_newline_alike {first : List Char} (nesting : Nesting)
    (h : ∀ span ∈ (scan first).getLast?, isOpen span.chars = false) (second : List Char) :
    RunsAlike .anywhere (Assembly.empty.run nesting (scan (first ++ '\n' :: second)))
      (Assembly.empty.run nesting (scan first ++ scan second)) := by
  obtain ⟨upper, lower, hScan, hUpper, hLower⟩ := scan_append_newline h second
  have hSpans : List.Forall₂ Similarity.anywhere.span (upper ++ lower)
      (scan first ++ scan second) :=
    List.rel_append (hUpper.imp fun _ _ hSpan => hSpan.chars_eq)
      (hLower.imp fun _ _ hSpan => hSpan.chars_eq)
  rw [hScan]
  exact Assembly.run_similar hSpans ⟨.nil, rfl⟩

/-- A refusal stands, whatever line comes behind the text. -/
theorem run_append_newline_eq_error {first : List Char} {nesting : Nesting} {refusal : Refusal}
    (h : ∀ span ∈ (scan first).getLast?, isOpen span.chars = false)
    (hRun : Assembly.empty.run nesting (scan first) = .error refusal) (second : List Char) :
    ∃ refusal', Assembly.empty.run nesting (scan (first ++ '\n' :: second)) = .error refusal' ∧
      refusal'.error = refusal.error := by
  obtain ⟨upper, lower, hScan, hUpper, -⟩ := scan_append_newline h second
  have hAlike := run_below_zero nesting hUpper
  rw [hRun] at hAlike
  rw [hScan, Assembly.run_append]
  generalize Assembly.empty.run nesting upper = outcome at hAlike
  cases hAlike with
  | @error refusal' _ hError =>
      exact ⟨refusal', rfl, by rw [hError.eq_down, ReadError.down_zero]⟩

/-- A text that is not read can be completed if the failure asks for more, and otherwise fails in
the same way whatever comes behind it. -/
theorem readText_append_newline_of_error {first : List Char} {keepComments : Bool} {maxDepth : Int}
    {error : ReadError} (hFirst : readText first keepComments maxDepth = .error error)
    (hLast : ∀ span ∈ (scan first).getLast?, isOpen span.chars = false) :
    (error.AsksForMore →
      ∃ second forms, readText (first ++ '\n' :: second) keepComments maxDepth = .ok forms) ∧
    (¬ error.AsksForMore →
      ∀ second, readText (first ++ '\n' :: second) keepComments maxDepth = .error error) := by
  rw [readText_eq_conclude] at hFirst
  cases hRun : Assembly.empty.run { base := 0, limit := maxDepth } (scan first) with
  | error refusal =>
      rw [hRun] at hFirst
      obtain rfl : refusal.error = error := Except.error.inj hFirst
      have hFinal : ¬ refusal.error.AsksForMore :=
        ReadError.not_asksForMore_of_isFinal (Assembly.isFinal_of_run hRun)
      refine ⟨fun hAsks => absurd hAsks hFinal, fun _ second => ?_⟩
      obtain ⟨refusal', hRefused, hSame⟩ := run_append_newline_eq_error hLast hRun second
      rw [readText_eq_conclude, hRefused, ← hSame]
      rfl
  | ok assembly =>
      obtain ⟨frames, done⟩ := assembly
      rw [hRun] at hFirst
      cases frames with
      | nil => cases hFirst
      | cons frame outer =>
          obtain rfl : frame.endOfInput = error := Except.error.inj hFirst
          refine ⟨fun _ => ?_, fun hSilent => absurd frame.asksForMore_endOfInput hSilent⟩
          obtain ⟨second, closed, hClosed⟩ :=
            exists_completion { base := 0, limit := maxDepth } (frame :: outer) done
          have hAlike := run_append_newline_alike { base := 0, limit := maxDepth } hLast second
          rw [Assembly.run_append_of_eq_ok hRun, hClosed] at hAlike
          refine ⟨second, ?_⟩
          generalize hBoth : Assembly.empty.run _ (scan (first ++ '\n' :: second)) = both at hAlike
          cases hAlike with
          | @ok left _ hSimilar =>
              refine ⟨_, readText_eq_ok_iff.mpr ⟨left, hBoth, ?_, rfl⟩⟩
              exact List.forall₂_nil_right_iff.mp hSimilar.frames

theorem readText_append_newline_of_open_lists :
    (∃ second forms, readText (['(', '\'', '(', 'b', ' ', '.'] ++ '\n' :: second) false 3 =
      .ok forms) ∧
    ∀ second, readText ([')'] ++ '\n' :: second) true 0 =
      .error (.structural .unexpectedClose (some ⟨1, 0⟩)) := by
  have hScan : scan ['(', '\'', '(', 'b', ' ', '.'] =
      [⟨0, 1, ['(', '\'', '(', 'b', ' ', '.']⟩, ⟨1, 2, ['(', '\'', '(', 'b', ' ', '.']⟩,
        ⟨2, 3, ['(', '\'', '(', 'b', ' ', '.']⟩, ⟨3, 4, ['(', '\'', '(', 'b', ' ', '.']⟩,
        ⟨5, 6, ['(', '\'', '(', 'b', ' ', '.']⟩] := by
    decide +kernel
  have hFirst : readText ['(', '\'', '(', 'b', ' ', '.'] false 3 =
      .error (.structural .unterminatedList (some ⟨1, 2⟩)) := by
    rw [readText_eq_conclude, hScan]
    rfl
  have hScan' : scan [')'] = [⟨0, 1, [')']⟩] := by
    decide +kernel
  have hFirst' : readText [')'] true 0 =
      .error (.structural .unexpectedClose (some ⟨1, 0⟩)) := by
    rw [readText_eq_conclude, hScan']
    rfl
  constructor
  · refine (readText_append_newline_of_error hFirst ?_).1 ?_
    · rw [hScan]
      decide
    · exact ⟨"unterminated list, expected ", by simp [moreExpected],
        (BeginsWith.refl "unterminated list, expected ").append "')'"⟩
  · refine (readText_append_newline_of_error hFirst' ?_).2 ?_
    · rw [hScan']
      decide
    · exact ReadError.not_asksForMore_of_isFinal rfl

end LispReader
