import LispReader.Reader.Basic

/-!
Recursive descent: the procedures that call one another for the parts of a form. They work on the
state of a reader, and the count of open levels is a part of that state: it is raised where a list
or a quote mark begins, and lowered where one is finished. A failure leaves the state as it is, so
what has been opened by then stays counted.

The procedures are written down as they run, with a bound for how many of their calls may be inside
one another; `none` stands for a run that would go beyond it. That a bound in the number of lexemes
is enough, and that the answers are those of `Reader.readForm`, `Reader.readDatum` and
`Reader.read`, are theorems about them.
-/

namespace LispReader.Descent

open LispReader.Reader (Outcome)
open LispReader.Text (Position)

/-- A procedure on a reader, which may fail, or not come to an end within its bound. -/
abbrev Action : Type → Type :=
  ExceptT ReadError (StateT Reader Option)

def unfinished {α : Type} : Action α :=
  fun _ => none

def call {α : Type} (operation : Reader → Outcome α) : Action α :=
  fun reader => some (operation reader)

/-- Counts a level that begins at a span. -/
def enter (span : Span) : Action Unit := do
  modify fun reader => { reader with depth := reader.depth + 1 }
  let reader ← get
  if reader.maxDepth < reader.depth then
    throw ((StructureFault.tooDeep reader.maxDepth).atSpan span)

def leave : Action Unit :=
  modify fun reader => { reader with depth := reader.depth - 1 }

def skipComments : Nat → Action Unit
  | 0 => unfinished
  | calls + 1 => do
    match ← call Reader.peek with
    | none => return ()
    | some (token, _) =>
      if token.isComment then
        discard (call Reader.next)
        skipComments calls

mutual

def readForm : Nat → Action Form
  | 0 => unfinished
  | calls + 1 => do
    match ← call Reader.next with
    | none => throw (.structural .endOfInput none)
    | some (.listStart, span) => readList calls span
    | some (.listEnd, span) => throw (StructureFault.unexpectedClose.atSpan span)
    | some (.dot, span) => throw (StructureFault.strayDot.atSpan span)
    | some (.quotePrefix operator, span) =>
      enter span
      let inner ← readDatum calls span.position (.expectedAfter span.text)
      leave
      return .quoteForm operator inner
    | some (form, _) => return form

/-- Reads one form that is no comment, where there is one. -/
def readDatum : Nat → Position → StructureFault → Action Form
  | 0, _, _ => unfinished
  | calls + 1, position, fault => do
    skipComments calls
    if ← call Reader.eof then throw (.structural fault (some position))
    readForm calls

/-- Reads the rest of a list. -/
def readList : Nat → Span → Action Form
  | 0, _ => unfinished
  | calls + 1, opening => do
    enter opening
    let (items, tail) ← readItems calls opening []
    leave
    return .chain items (tail.getD .emptyList)

/-- Reads the items of a list up to its end, behind those that have been read, and the tail if there
is one. -/
def readItems : Nat → Span → List Form → Action (List Form × Option Form)
  | 0, _, _ => unfinished
  | calls + 1, opening, items => do
    match ← call Reader.peek with
    | none => throw (StructureFault.unterminatedList.atSpan opening)
    | some (.listEnd, _) =>
      discard (call Reader.next)
      return (items, none)
    | some (.dot, dot) =>
      discard (call Reader.next)
      if items.isEmpty then throw (StructureFault.nothingBeforeDot.atSpan dot)
      let tail ← readDottedTail calls dot opening
      return (items, some tail)
    | some _ =>
      let form ← readForm calls
      readItems calls opening (if form.isComment then items else items ++ [form])

/-- Reads the one form behind a dot, and the end of the list that must follow it. -/
def readDottedTail : Nat → Span → Span → Action Form
  | 0, _, _ => unfinished
  | calls + 1, dot, opening => do
    skipComments calls
    match ← call Reader.peek with
    | none => throw (StructureFault.unterminatedList.atSpan opening)
    | some (.listEnd, _) => throw (StructureFault.nothingAfterDot.atSpan dot)
    | some _ =>
      let tail ← readForm calls
      skipComments calls
      match ← call Reader.peek with
      | none => throw (StructureFault.unterminatedList.atSpan opening)
      | some (.listEnd, _) =>
        discard (call Reader.next)
        return tail
      | some (_, span) => throw (StructureFault.severalAfterDot.atSpan span)

end

/-- Reads all forms that are left, behind those that have been read. -/
def readForms : Nat → List Form → Action (List Form)
  | 0, _ => unfinished
  | calls + 1, forms => do
    if ← call Reader.eof then return forms
    let form ← readForm calls
    let reader ← get
    readForms calls (if form.isComment && !reader.keepComments then forms else forms ++ [form])

def read (calls : Nat) : Action (List Form) :=
  readForms calls []

end LispReader.Descent
