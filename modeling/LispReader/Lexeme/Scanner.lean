import LispReader.Lexeme.Extent
import LispReader.Lexeme.Span

/-!
The scanner: a cursor in a text. `next` moves it over blanks and one lexeme; `spans` lists the
lexemes that are left. The cursor can also be moved by hand over what begins at it.
-/

namespace LispReader

open LispReader.Lexeme

/-- What is seen when one looks at a place of a text. -/
inductive Sight where
  | character (c : Char)
  /-- The place lies past the end. -/
  | pastEnd
  /-- The place lies before the beginning, even when it is counted from the end. -/
  | beforeStart
  deriving Repr, DecidableEq

/-- Looks at a place of a text. A place below zero is counted from the end. -/
def Sight.ofPlace (text : List Char) : Int → Sight
  | .ofNat place =>
    match text[place]? with
    | some c => .character c
    | none => .pastEnd
  | .negSucc place =>
    match text.reverse[place]? with
    | some c => .character c
    | none => .beforeStart

/-- A cursor in a text. What lies behind the cursor is kept at hand. -/
structure Scanner where
  buffer : List Char
  cursor : Nat
  rest : List Char
  rest_eq : rest = buffer.drop cursor

namespace Scanner

def ofText (text : List Char) : Scanner where
  buffer := text
  cursor := 0
  rest := text
  rest_eq := by simp

def advance (scanner : Scanner) (count : Nat) : Scanner where
  buffer := scanner.buffer
  cursor := scanner.cursor + count
  rest := scanner.rest.drop count
  rest_eq := by rw [scanner.rest_eq, List.drop_drop]

def atEnd (scanner : Scanner) : Bool :=
  scanner.rest.isEmpty

/-- Looks at the place a number of characters behind the cursor, or before it if the number is
below zero. -/
def peek (scanner : Scanner) (offset : Int) : Sight :=
  .ofPlace scanner.buffer (scanner.cursor + offset)

/-- What is seen behind the cursor is a character of the rest. -/
theorem peek_natCast_eq_character_iff (scanner : Scanner) (offset : Nat) (c : Char) :
    scanner.peek offset = .character c ↔ scanner.rest[offset]? = some c := by
  have hPlace : ((scanner.cursor : Int) + offset) = Int.ofNat (scanner.cursor + offset) := by simp
  rw [peek, hPlace, scanner.rest_eq, List.getElem?_drop]
  simp only [Sight.ofPlace]
  split <;> simp_all

def skipBlanks (scanner : Scanner) : Scanner :=
  scanner.advance (blankLength scanner.rest)

def skipLine (scanner : Scanner) : Scanner :=
  scanner.advance (lineLength scanner.rest)

/-- Moves over an atom, which may be empty. -/
def skipAtom (scanner : Scanner) : Scanner :=
  scanner.advance (atomLength scanner.rest)

/-- Moves over a string. There is one only where a double quote stands at the cursor. -/
def skipString? (scanner : Scanner) : Option Scanner :=
  match scanner.rest with
  | '"' :: tail => some (scanner.advance (stringTailLength tail + 1))
  | _ => none

/-- Moves over the lexeme that begins at the cursor. Its first character decides how, and for a
number sign the character behind that. -/
def skipLexeme (scanner : Scanner) : Scanner :=
  match scanner.rest with
  | [] => scanner
  | c :: _ =>
    if c = '(' ∨ c = ')' ∨ c = '\'' then scanner.advance 1
    else if c = '#' ∧ scanner.peek 1 = .character '\'' then scanner.advance 2
    else if c = '"' then scanner.skipString?.getD scanner
    else if c = ';' then scanner.skipLine
    else scanner.skipAtom

/-- The next lexeme, with the cursor behind it. At the end of the text there is none, and the
cursor stands there. -/
def next (scanner : Scanner) : Option Span × Scanner :=
  let scanner := scanner.skipBlanks
  if scanner.atEnd then (none, scanner)
  else
    let after := scanner.skipLexeme
    (some ⟨scanner.cursor, after.cursor, scanner.buffer⟩, after)

@[simp]
theorem advance_zero (scanner : Scanner) : scanner.advance 0 = scanner := by
  simp [advance]

/-- A lexeme is as long as `lexemeLength` says. -/
theorem skipLexeme_eq (scanner : Scanner) :
    scanner.skipLexeme = scanner.advance (lexemeLength scanner.rest) := by
  have hQuote : scanner.peek 1 = .character '\'' ↔ scanner.rest[1]? = some '\'' :=
    scanner.peek_natCast_eq_character_iff 1 '\''
  simp only [skipLexeme, skipString?, skipLine, skipAtom, hQuote]
  generalize scanner.rest = text
  fun_cases lexemeLength text with
  | case1 => simp
  | case2 => simp
  | case3 => simp
  | case4 _ _ _ _ hMark => simp [hMark]
  | case5 rest => simp
  | case6 c rest hNumber hString hMark hLine =>
      have hOperator : ¬ (c = '#' ∧ (c :: rest)[1]? = some '\'') := by
        rintro ⟨rfl, hSecond⟩
        cases rest <;> simp_all
      simp_all

theorem next_of_rest_eq_nil {scanner : Scanner} (h : scanner.skipBlanks.rest = []) :
    scanner.next = (none, scanner.skipBlanks) := by
  simp [next, atEnd, h]

/-- Where there is something but blanks, the next lexeme is found and the cursor stands behind
it. -/
theorem next_of_rest_ne_nil {scanner : Scanner} (h : scanner.skipBlanks.rest ≠ []) :
    let after := scanner.skipBlanks.advance (lexemeLength scanner.skipBlanks.rest)
    scanner.next =
      (some ⟨scanner.skipBlanks.cursor, after.cursor, scanner.skipBlanks.buffer⟩, after) := by
  simp [next, atEnd, h, skipLexeme_eq]

@[simp]
theorem length_rest_advance (scanner : Scanner) (count : Nat) :
    (scanner.advance count).rest.length = scanner.rest.length - count := by
  simp [advance]

/-- Every lexeme makes the rest of the text shorter. -/
theorem length_rest_next {scanner after : Scanner} {span : Span}
    (h : scanner.next = (some span, after)) : after.rest.length < scanner.rest.length := by
  by_cases hRest : scanner.skipBlanks.rest = []
  · rw [next_of_rest_eq_nil hRest] at h
    cases h
  · obtain ⟨c, tail, hCons⟩ := List.exists_cons_of_ne_nil hRest
    have hBlank : Text.isBlank c = false := isBlank_eq_false_of_drop_blankLength hCons
    have hPos : 0 < lexemeLength scanner.skipBlanks.rest := by
      rw [hCons]
      exact lexemeLength_pos hBlank
    have hLength : 0 < scanner.skipBlanks.rest.length := by simp [hCons]
    have hSkip : scanner.skipBlanks.rest.length ≤ scanner.rest.length := by
      simp [skipBlanks]
    rw [next_of_rest_ne_nil hRest] at h
    cases h
    rw [length_rest_advance]
    omega

/-- The lexemes from the cursor on. -/
def spans (scanner : Scanner) : List Span :=
  match _h : scanner.next with
  | (none, _) => []
  | (some span, after) => span :: after.spans
termination_by scanner.rest.length
decreasing_by exact length_rest_next ‹_›

end Scanner

/-- The lexemes of a text. -/
def scan (text : List Char) : List Span :=
  (Scanner.ofText text).spans

end LispReader
