import LispReader.Text.Blank

/-!
How far a lexeme extends from the front of a text. Each kind of lexeme has its own length function
here; `lexemeLength` chooses between them by the first character. Lengths never exceed the text, so
a string without its closing quote, or a text that ends after a backslash, is cut off at the end.
-/

namespace LispReader.Lexeme

open LispReader.Text

/-- The number of blanks in front of a text. -/
def blankLength (text : List Char) : Nat :=
  (text.takeWhile isBlank).length

/-- The number of characters before the first line end. A comment extends that far. -/
def lineLength (text : List Char) : Nat :=
  (text.takeWhile fun c => c != '\r' && c != '\n').length

/-- Whether a character ends an atom that stands before it. -/
def endsAtom (c : Char) : Bool :=
  isBlank c || c == '(' || c == ')'

/-- The length of the atom in front of a text. A backslash takes the character after it along,
whatever that is. -/
def atomLength : List Char → Nat
  | [] => 0
  | ['\\'] => 1
  | '\\' :: _ :: rest => atomLength rest + 2
  | c :: rest => if endsAtom c then 0 else atomLength rest + 1

/-- The length of what follows the opening quote of a string, its closing quote included. A
backslash takes the character after it along. -/
def stringTailLength : List Char → Nat
  | [] => 0
  | '"' :: _ => 1
  | ['\\'] => 1
  | '\\' :: _ :: rest => stringTailLength rest + 2
  | _ :: rest => stringTailLength rest + 1

/-- The length of the lexeme in front of a text that does not begin with a blank. Parentheses and
quote marks are lexemes of their own, a double quote begins a string, a semicolon a comment, and
anything else an atom. -/
def lexemeLength : List Char → Nat
  | [] => 0
  | '#' :: '\'' :: _ => 2
  | '"' :: rest => stringTailLength rest + 1
  | c :: rest =>
    if c = '(' ∨ c = ')' ∨ c = '\'' then 1
    else if c = ';' then lineLength (c :: rest)
    else atomLength (c :: rest)

theorem blankLength_le (text : List Char) : blankLength text ≤ text.length :=
  (List.takeWhile_sublist _).length_le

theorem lineLength_le (text : List Char) : lineLength text ≤ text.length :=
  (List.takeWhile_sublist _).length_le

theorem atomLength_le (text : List Char) : atomLength text ≤ text.length := by
  fun_induction atomLength text <;> simp_all

theorem stringTailLength_le (text : List Char) : stringTailLength text ≤ text.length := by
  fun_induction stringTailLength text <;> simp_all

theorem lexemeLength_le (text : List Char) : lexemeLength text ≤ text.length := by
  fun_cases lexemeLength text with
  | case1 => simp
  | case2 => simp
  | case3 rest => simpa using stringTailLength_le rest
  | case4 => simp
  | case5 => exact lineLength_le _
  | case6 => exact atomLength_le _

/-- What is left after the blanks in front of a text does not begin with a blank. -/
theorem isBlank_eq_false_of_drop_blankLength {text rest : List Char} {c : Char}
    (h : text.drop (blankLength text) = c :: rest) : isBlank c = false := by
  induction text with
  | nil => simp at h
  | cons d text ih =>
      cases hd : isBlank d with
      | true => exact ih (by simpa [blankLength, hd] using h)
      | false =>
          have hcd : d = c := by simp_all [blankLength]
          exact hcd ▸ hd

theorem atomLength_pos {c : Char} {rest : List Char} (h : endsAtom c = false) :
    0 < atomLength (c :: rest) := by
  unfold atomLength
  split <;> simp_all

theorem lexemeLength_pos {c : Char} {rest : List Char} (h : isBlank c = false) :
    0 < lexemeLength (c :: rest) := by
  unfold lexemeLength
  split
  · simp_all
  · simp
  · simp
  · next hText =>
      obtain ⟨rfl, rfl⟩ := List.cons.inj hText
      split
      · simp
      · next hMark =>
          split
          · simp_all [lineLength]
          · exact atomLength_pos (by simp_all [endsAtom])

end LispReader.Lexeme
