import LispReader.Lexeme.Extent
import LispReader.Lexeme.Fault
import LispReader.Lexeme.Literal
import LispReader.Token.Chain
import LispReader.Value.Basic

/-!
The meaning of a lexeme. A rule either finds a token for a text, or does not apply, or finds the
text to be at fault; `classify` tries the rules in order. A quote mark in front of a text applies
to the meaning of what is behind it, so classification goes through the marks one by one.
-/

namespace LispReader

/-- The rules that give a lexeme its meaning. -/
inductive Rule where
  /-- A semicolon begins a comment. -/
  | comment
  /-- Parentheses, the dot and `nil` are fixed texts. -/
  | marker
  | rational
  | float
  | integer
  | string
  /-- The mark `#'` before a form asks for a function. -/
  | functionQuote
  /-- The mark `'` before a form keeps it as it is. -/
  | quote
  /-- An atom of no other meaning is a symbol. -/
  | symbol
  deriving Repr, DecidableEq, Inhabited

namespace Lexeme

def leastWord : Int := -0x8000000000000000

def greatestWord : Int := 0x7fffffffffffffff

/-- The number that digits with an optional sign denote, if it fits into 64 bits. The fault names
the lexeme that they stand in. -/
def readWord (digits lexeme : List Char) : Except LexemeFault Int :=
  match Decimal.readInteger digits with
  | .error count => .error (.tooManyDigits count)
  | .ok value =>
    if leastWord ≤ value ∧ value ≤ greatestWord then .ok value
    else .error (.integerRange (String.ofList lexeme))

/-- The numerator and the denominator of a written ratio. -/
def ratioParts? (text : List Char) : Option (List Char × List Char) :=
  match text.span fun c => c != '/' with
  | (numerator, _ :: denominator) =>
    if Decimal.isInteger numerator && Decimal.isDigits denominator then
      some (numerator, denominator)
    else none
  | (_, []) => none

/-- The parts of a written double: digits on both sides of the point, and perhaps an exponent. -/
def floatParts? (text : List Char) : Option Decimal.Parts :=
  match Decimal.Parts.ofText? text with
  | some parts => if parts.whole.isEmpty || parts.fraction.isEmpty then none else some parts
  | none => none

/-- Whether a text may be a symbol, if nothing else. -/
def isSymbol : List Char → Bool
  | [] => false
  | c :: rest => c != '.' && c != '"' && (c :: rest).all fun d => !endsAtom d

/-- The form that a quote mark makes of what is behind it. A mark with nothing behind it waits for
the next form; one before something that is no form is at fault. -/
def applyQuote (operator : String) (text behind : List Char)
    (quoted : Unit → Except LexemeFault Form) : Except LexemeFault Form :=
  if behind.isEmpty then .ok (.quotePrefix (.text operator))
  else do
    let form ← quoted ()
    if form.isStructural then .error (.nothingToQuote operator (String.ofList text))
    else return .quoteForm (.text operator) form

end Lexeme

namespace Rule

open Lexeme

/-- The rules in the order in which they are tried. -/
def all : List Rule :=
  [.comment, .marker, .rational, .float, .integer, .string, .functionQuote, .quote, .symbol]

/-- Tries a rule on a text. The meaning of what is behind the quote mark in front of the text, if
there is one, is worked out on demand. -/
def attempt (rule : Rule) (text : List Char) (quoted : Unit → Except LexemeFault Form) :
    Except LexemeFault (Option Form) :=
  match rule with
  | .comment =>
    match text with
    | ';' :: _ =>
      let marks := text.takeWhile fun c => c == ';'
      let words := Text.firstLine (text.drop marks.length)
      .ok (some (.comment (.int marks.length) (.text (String.ofList words))))
    | _ => .ok none
  | .marker =>
    match text with
    | ['('] => .ok (some .listStart)
    | [')'] => .ok (some .listEnd)
    | ['.'] => .ok (some .dot)
    | ['n', 'i', 'l'] => .ok (some .nil)
    | _ => .ok none
  | .rational =>
    match ratioParts? text with
    | some (numerator, denominator) => do
      let n ← readWord numerator text
      let d ← readWord denominator text
      return some (.rational (.int n) (.int d))
    | none => .ok none
  | .float =>
    match floatParts? text with
    | some parts =>
      if parts.value.isFinite then .ok (some (.float (.float parts.value)))
      else .error (.floatRange (String.ofList text))
    | none => .ok none
  | .integer =>
    if Decimal.isInteger text then do
      let value ← readWord text text
      return some (.integer (.int value))
    else .ok none
  | .string =>
    match text with
    | '"' :: tail =>
      match decodeString tail with
      | .ok chars => .ok (some (.string (.text (String.ofList chars))))
      | .error .unterminated => .error (.unterminatedString (String.ofList text))
      | .error (.unknownEscape c) => .error (.unknownEscape c (String.ofList text))
      | .error .afterString => .error (.afterString (String.ofList text))
    | _ => .ok none
  | .functionQuote =>
    match text with
    | '#' :: '\'' :: behind => some <$> applyQuote "function" text behind quoted
    | _ => .ok none
  | .quote =>
    match text with
    | '\'' :: behind => some <$> applyQuote "quote" text behind quoted
    | _ => .ok none
  | .symbol =>
    if isSymbol text then .ok (some (.symbol (.text (String.ofList text)))) else .ok none

/-- The first meaning that rules find for a text, tried in order. -/
def firstOf (rules : List Rule) (text : List Char)
    (quoted : Unit → Except LexemeFault Form) : Except LexemeFault Form :=
  match rules with
  | [] => .error (.unmatched (String.ofList text))
  | rule :: others => do
    match ← rule.attempt text quoted with
    | some form => return form
    | none => firstOf others text quoted

end Rule

namespace Lexeme

/-- The meaning of a text by rules in a given order. What is behind a quote mark is classified by
the same rules. -/
def classifyBy (rules : List Rule) : List Char → Except LexemeFault Form
  | [] => .error .empty
  | c :: rest =>
    Rule.firstOf rules (c :: rest) fun _ =>
      match c, rest with
      | '#', _ :: behind => classifyBy rules behind
      | _, behind => classifyBy rules behind

/-- The meaning of a lexeme. -/
def classify (text : List Char) : Except LexemeFault Form :=
  classifyBy Rule.all text

end Lexeme

/-- What one rule, tried alone, makes of a text. -/
def Rule.apply (rule : Rule) (text : List Char) : Except LexemeFault (Option Form) :=
  rule.attempt text fun _ =>
    match text with
    | '#' :: _ :: behind => Lexeme.classify behind
    | _ :: behind => Lexeme.classify behind
    | [] => .error .empty

end LispReader
