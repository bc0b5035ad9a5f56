import LispReader.Proofs.Decimal.Written
import LispReader.Proofs.Lexeme.Whole

/-!
Printing forms: the text that a form is written with, for the forms that have one which is read
back. Numbers are written in decimal, strings with a backslash in front of every backslash and
every double quote, and a chain with its items in parentheses, its last tail behind a dot unless
that is the empty list.
-/

namespace LispReader

open Decimal Lexeme

namespace Form

/-- The text of a form that is no chain. -/
def printAtom : Form → List Char
  | .integer (.int value) => written value
  | .rational (.int numerator) (.int denominator) =>
    written numerator ++ '/' :: written denominator
  | .string (.text text) => '"' :: (escaped text.toList ++ ['"'])
  | .symbol (.text text) => text.toList
  | .nil => ['n', 'i', 'l']
  | .emptyList => ['(', ')']
  | _ => []

mutual

/-- The text of a form. -/
def print : Form → List Char
  | .cons head tail => '(' :: (print head ++ printTail tail)
  | form => printAtom form

/-- What is written behind the first item of a chain, given the rest of the chain. -/
def printTail : Form → List Char
  | .cons head tail => ' ' :: (print head ++ printTail tail)
  | .emptyList => [')']
  | form => ' ' :: '.' :: ' ' :: (printAtom form ++ [')'])

end

/-- The last tail of a chain behind its dot. The empty list is left out. -/
def printLastTail : Form → List Char
  | .emptyList => []
  | form => ' ' :: '.' :: ' ' :: print form

theorem printTail_eq (form : Form) :
    printTail form =
      (form.heads.map fun item => ' ' :: print item).flatten ++ printLastTail form.lastTail ++
        [')'] := by
  induction form with
  | cons head tail _ ih => simp [printTail, Token.heads, Token.lastTail, ih]
  | _ => simp [printTail, Token.heads, Token.lastTail, printLastTail, print]

theorem intercalate_blank_cons (first : List Char) (others : List (List Char)) :
    [' '].intercalate (first :: others) = first ++ (others.map (' ' :: ·)).flatten := by
  induction others generalizing first with
  | nil => simp
  | cons second others ih => simp [List.intercalate_cons_cons, ih]

/-- A chain is written with its items, one blank between them, and its last tail. -/
theorem print_cons (head tail : Form) :
    print (.cons head tail) =
      '(' :: ([' '].intercalate ((Token.cons head tail).heads.map print) ++
        printLastTail tail.lastTail ++ [')']) := by
  rw [print, printTail_eq, Token.heads, List.map_cons, intercalate_blank_cons]
  simp [Function.comp_def]

mutual

/-- How deep a form nests. A chain is one level more than its deepest item, and the empty list is
one level, but not as the end of a chain. -/
def nesting : Form → Nat
  | .cons head tail => max (nesting head) (tailNesting tail) + 1
  | .emptyList => 1
  | _ => 0

/-- How deep the items of a chain nest. -/
def tailNesting : Form → Nat
  | .cons head tail => max (nesting head) (tailNesting tail)
  | _ => 0

end

/-- The forms that are read back from what they are written with. -/
inductive Printable : Form → Prop where
  | integer {value : Int} (least : leastWord ≤ value) (greatest : value ≤ greatestWord) :
      Printable (.integer (.int value))
  | rational {numerator denominator : Int} (least : leastWord ≤ numerator)
      (greatest : numerator ≤ greatestWord) (least' : 0 ≤ denominator)
      (greatest' : denominator ≤ greatestWord) :
      Printable (.rational (.int numerator) (.int denominator))
  | string (text : String) : Printable (.string (.text text))
  | symbol {text : String} (plain : PlainSymbol text.toList) : Printable (.symbol (.text text))
  | nil : Printable .nil
  | emptyList : Printable .emptyList
  | cons {head tail : Form} (first : Printable head) (rest : Printable tail) :
      Printable (.cons head tail)

end Form

end LispReader
