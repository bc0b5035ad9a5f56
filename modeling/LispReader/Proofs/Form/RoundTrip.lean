import LispReader.Proofs.Form.Print
import LispReader.Proofs.Reader.Single

/-!
Printing a form and reading it. What is written has the same tokens in front of whatever stops an
atom, so the tokens of a form are those of its parts in order. They are the word of a derivation
that stands for the form, and reading finds it.
-/

namespace LispReader

open Decimal Lexeme
open LispReader.Derivation (words values depths)

/-- In front of whatever stops an atom, a text adds just these tokens. -/
def WrittenAs (text : List Char) (tokens : List Form) : Prop :=
  ∀ rest others, StopsAtom rest → Classified (scan rest) others →
    Classified (scan (text ++ rest)) (tokens ++ others)

theorem stopsAtom_cons {c : Char} (h : endsAtom c = true) (rest : List Char) :
    StopsAtom (c :: rest) := by
  intro d hd
  obtain rfl := Option.some.inj hd
  exact h

/-- The first lexeme of a text gives its first token. -/
theorem classified_scan_cons {text rest lexeme : List Char} {token : Form} {tokens : List Form}
    (hText : lexemes text = lexeme :: lexemes rest) (hToken : classify lexeme = .ok token)
    (hRest : Classified (scan rest) tokens) : Classified (scan text) (token :: tokens) := by
  rw [classified_scan_iff] at hRest ⊢
  rw [hText]
  exact .cons hToken hRest

namespace WrittenAs

theorem classified {text : List Char} {tokens : List Form} (h : WrittenAs text tokens) :
    Classified (scan text) tokens := by
  have hEmpty : Classified (scan []) [] := by
    rw [classified_scan_iff, lexemes_nil]
    exact .nil
  have hText := h [] [] (by simp [StopsAtom]) hEmpty
  rwa [List.append_nil, List.append_nil] at hText

theorem atom {text : List Char} {token : Form} (hWhole : WholeAtom text)
    (hToken : classify text = .ok token) : WrittenAs text [token] := by
  intro rest others hStops hOthers
  exact classified_scan_cons (hWhole.lexemes_append hStops) hToken hOthers

theorem string (text : List Char) :
    WrittenAs ('"' :: (escaped text ++ ['"'])) [.string (.text (String.ofList text))] := by
  intro rest others _ hOthers
  exact classified_scan_cons (lexemes_string_append text rest) (classify_string text) hOthers

theorem close : WrittenAs [')'] [.listEnd] := by
  intro rest others _ hOthers
  exact classified_scan_cons (lexemes_cons rfl rest) rfl hOthers

theorem openList {text : List Char} {tokens : List Form} (h : WrittenAs text tokens) :
    WrittenAs ('(' :: text) (.listStart :: tokens) := by
  intro rest others hStops hOthers
  exact classified_scan_cons (lexemes_cons rfl (text ++ rest)) rfl (h rest others hStops hOthers)

theorem blank {text : List Char} {tokens : List Form} (h : WrittenAs text tokens) :
    WrittenAs (' ' :: text) tokens := by
  intro rest others hStops hOthers
  have hText := h rest others hStops hOthers
  rw [classified_scan_iff] at hText ⊢
  rwa [List.cons_append, lexemes_blank rfl]

/-- Texts are written one behind the other, if the second one begins with a separator. -/
theorem append {first second : List Char} {tokens tokens' : List Form}
    (hFirst : WrittenAs first tokens) (hSecond : WrittenAs second tokens')
    (hStops : ∃ c rest, second = c :: rest ∧ endsAtom c = true) :
    WrittenAs (first ++ second) (tokens ++ tokens') := by
  intro rest others hRest hOthers
  obtain ⟨c, more, rfl, hEnds⟩ := hStops
  rw [List.append_assoc, List.append_assoc]
  exact hFirst _ _ (stopsAtom_cons hEnds (more ++ rest)) (hSecond rest others hRest hOthers)

end WrittenAs

namespace Form

/-- A form is written with the word of a derivation that stands for it and nests as deep. -/
def Spelled (form : Form) : Prop :=
  ∃ derivation : Derivation, derivation.value = form ∧ derivation.depth = nesting form ∧
    WrittenAs (print form) derivation.word

/-- What is written for the rest of a chain goes on from any items in front of it, to the word of a
derivation that stands for the whole chain. -/
def SpelledBehind (form : Form) : Prop :=
  ∃ word, WrittenAs (printTail form) word ∧ ∀ first others, ∃ derivation : Derivation,
    derivation.value = .chain (values (first :: others)) form ∧
    derivation.depth = max (depths (first :: others)) (tailNesting form) + 1 ∧
    derivation.word = .listStart :: (words (first :: others) ++ word)

theorem printTail_eq_cons (form : Form) :
    ∃ c rest, printTail form = c :: rest ∧ endsAtom c = true := by
  cases form with
  | emptyList => exact ⟨')', _, rfl, rfl⟩
  | _ => exact ⟨' ', _, rfl, rfl⟩

theorem Spelled.cons {head tail : Form} (hHead : Spelled head) (hTail : SpelledBehind tail) :
    Spelled (.cons head tail) := by
  obtain ⟨first, hValue, hDepth, hWritten⟩ := hHead
  obtain ⟨word, hWord, hWhole⟩ := hTail
  obtain ⟨derivation, hChain, hDeep, hSpelling⟩ := hWhole first []
  refine ⟨derivation, ?_, ?_, ?_⟩
  · rw [hChain, values, values, hValue]
    rfl
  · rw [hDeep, nesting, depths, depths, hDepth, Nat.max_zero]
  · rw [hSpelling, print, words, words, List.append_nil]
    exact (hWritten.append hWord (printTail_eq_cons tail)).openList

theorem SpelledBehind.cons {head tail : Form} (hHead : Spelled head) (hTail : SpelledBehind tail) :
    SpelledBehind (.cons head tail) := by
  obtain ⟨item, hValue, hDepth, hWritten⟩ := hHead
  obtain ⟨word, hWord, hWhole⟩ := hTail
  refine ⟨item.word ++ word, ?_, ?_⟩
  · rw [printTail]
    exact (hWritten.append hWord (printTail_eq_cons tail)).blank
  · intro first others
    obtain ⟨derivation, hChain, hDeep, hSpelling⟩ := hWhole first (others ++ [item])
    refine ⟨derivation, ?_, ?_, ?_⟩
    · rw [hChain]
      simp [values, hValue, Token.chain]
    · rw [hDeep, tailNesting]
      simp only [depths, Derivation.depths_append, hDepth]
      omega
    · rw [hSpelling]
      simp [words]

theorem spelled_emptyList : Spelled .emptyList ∧ SpelledBehind .emptyList := by
  constructor
  · exact ⟨.list [], rfl, rfl, WrittenAs.close.openList⟩
  · refine ⟨[.listEnd], .close, fun first others => ⟨.list (first :: others), rfl, ?_, rfl⟩⟩
    show depths (first :: others) + 1 = max (depths (first :: others)) 0 + 1
    rw [Nat.max_zero]

/-- A form that is one token is spelled as it is, and behind items with its dot. -/
theorem spelled_of_token {form : Form} (isAtom : form.isStructural = false)
    (hPrint : print form = printAtom form)
    (hTail : printTail form = ' ' :: '.' :: ' ' :: (printAtom form ++ [')']))
    (hNesting : nesting form = 0) (hTailNesting : tailNesting form = 0)
    (h : WrittenAs (printAtom form) [form]) : Spelled form ∧ SpelledBehind form := by
  constructor
  · exact ⟨.atom form isAtom, rfl, hNesting.symm, hPrint ▸ h⟩
  · refine ⟨.dot :: (form :: [.listEnd]), ?_, fun first others => ?_⟩
    · have hDot : WrittenAs ['.'] [.dot] := .atom wholeAtom_point rfl
      have hBehind : WrittenAs (' ' :: (printAtom form ++ [')'])) ([form] ++ [.listEnd]) :=
        (h.append .close ⟨')', [], rfl, rfl⟩).blank
      rw [hTail]
      exact (hDot.append hBehind ⟨' ', _, rfl, rfl⟩).blank
    · refine ⟨.dotted first others (.atom form isAtom), Derivation.value_dotted _ _ _, ?_,
        Derivation.word_dotted _ _ _⟩
      rw [Derivation.depth_dotted, hTailNesting]
      rfl

/-- Every form that can be printed is spelled by a derivation. -/
theorem Printable.spelled {form : Form} (h : Printable form) :
    Spelled form ∧ SpelledBehind form := by
  induction h with
  | @integer value least greatest =>
      have hShape : IntegerShape (written value) := integerShape_written value
      have hToken : classify (written value) = .ok (.integer (.int value)) := by
        rw [classify_of_integerShape hShape, readWord_written least greatest]
        rfl
      exact spelled_of_token rfl rfl rfl rfl rfl (.atom (wholeAtom_of_integerShape hShape) hToken)
  | @rational numerator denominator least greatest least' greatest' =>
      have hNumerator : IntegerShape (written numerator) := integerShape_written numerator
      have hDenominator : isDigits (written denominator) = true := isDigits_written least'
      have hLeast : leastWord ≤ denominator := Int.le_trans (by decide) least'
      have hToken : classify (written numerator ++ '/' :: written denominator) =
          .ok (.rational (.int numerator) (.int denominator)) := by
        rw [classify_of_ratio hNumerator hDenominator, readWord_written least greatest,
          readWord_written hLeast greatest']
        rfl
      exact spelled_of_token rfl rfl rfl rfl rfl
        (.atom (wholeAtom_of_ratioShape ⟨_, _, hNumerator, hDenominator, rfl⟩) hToken)
  | string text =>
      have hWritten := WrittenAs.string text.toList
      rw [String.ofList_toList] at hWritten
      exact spelled_of_token rfl rfl rfl rfl rfl hWritten
  | @symbol text plain =>
      have hToken : classify text.toList = .ok (.symbol (.text text)) := by
        rw [plain.classify_eq, String.ofList_toList]
      exact spelled_of_token rfl rfl rfl rfl rfl (.atom plain.wholeAtom hToken)
  | nil => exact spelled_of_token rfl rfl rfl rfl rfl (.atom wholeAtom_nil rfl)
  | emptyList => exact spelled_emptyList
  | cons _ _ ihHead ihTail => exact ⟨ihHead.1.cons ihTail.2, .cons ihHead.1 ihTail.2⟩

end Form

/-- Reading what a form is written with gives the form back, if it nests no deeper than the reader
allows. -/
theorem readForm_print {form : Form} (hForm : Form.Printable form)
    (hNesting : Form.nesting form ≤ 256) : readForm (Form.print form) = .ok form := by
  obtain ⟨derivation, rfl, hDepth, hWritten⟩ := hForm.spelled.1
  refine readForm_of_word hWritten.classified ?_
  rw [hDepth]
  exact Int.ofNat_le.mpr hNesting

theorem plainSymbol_with_backslash : PlainSymbol ['a', '\\', '\''] where
  ne_nil := by simp
  not_separator := by simp [Text.isBlank]
  not_mark := by simp
  not_functionQuote := by decide
  ne_marker := by decide
  not_integer := (not_number_of_not_startsNumber (by simp [StartsNumber]) _).1
  not_ratio := (not_number_of_not_startsNumber (by simp [StartsNumber]) _).2.1
  not_float := (not_number_of_not_startsNumber (by simp [StartsNumber]) _).2.2
  closed := rfl

theorem readForm_print_improper_chain :
    readForm ['(', '"', '\\', '"', '(', '"', ' ', '(', '(', ')', ' ', '.', ' ', 'a', '\\', '\'',
        ')', ' ', '.', ' ', '-', '5', '/', '0', ')'] =
      .ok (.cons (.string (.text "\"("))
        (.cons (.cons .emptyList (.symbol (.text "a\\'"))) (.rational (.int (-5)) (.int 0)))) := by
  have hPrint : Form.print (.cons (.string (.text "\"("))
      (.cons (.cons .emptyList (.symbol (.text "a\\'"))) (.rational (.int (-5)) (.int 0)))) =
      ['(', '"', '\\', '"', '(', '"', ' ', '(', '(', ')', ' ', '.', ' ', 'a', '\\', '\'',
        ')', ' ', '.', ' ', '-', '5', '/', '0', ')'] := by
    decide +kernel
  rw [← hPrint]
  refine readForm_print (.cons (.string _) (.cons (.cons .emptyList (.symbol ?_))
    (.rational (by decide) (by decide) (by decide) (by decide)))) (by decide)
  rw [show "a\\'".toList = ['a', '\\', '\''] by decide +kernel]
  exact plainSymbol_with_backslash

end LispReader
