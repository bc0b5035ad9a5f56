import LispReader.Lexeme.Scanner
import LispReader.Reader.Assembly

/-!
The reader: lexemes that are still to come, at most one that has been looked at and not used, and
the number of levels that are open. Every operation gives back the reader as it leaves it, after a
failure too. A lexeme without a meaning is used up by the failure that reports it; the levels that
were open at a failure stay open.

What a lexeme means is looked up by a function that the operations are given, so that it can be
watched how they look it up.
-/

namespace LispReader

open LispReader.Text (Position)

/-- The nesting that is allowed unless something else is asked for. -/
def Reader.defaultMaxDepth : Int := 256

/-- A reader of forms. -/
structure Reader where
  /-- The lexemes that have not been looked at. -/
  pending : List Span
  /-- The lexeme that has been looked at and not used, with its meaning. -/
  held : Option (Form × Span) := none
  depth : Nat := 0
  /-- Whether comments outside of all lists are kept. -/
  keepComments : Bool := false
  maxDepth : Int := Reader.defaultMaxDepth
  /-- The offset up to which the text has been looked at. -/
  reached : Nat := 0
  ending : Nat := 0

namespace Reader

def ofText (text : List Char) (keepComments : Bool) (maxDepth : Int) : Reader :=
  { pending := scan text, keepComments, maxDepth, ending := text.length }

def ofSpans (spans : List Span) (keepComments : Bool) (maxDepth : Int) : Reader :=
  { pending := spans, keepComments, maxDepth }

/-- The reader after it has met the end of the text. -/
def atEnd (reader : Reader) : Reader :=
  { reader with pending := [], held := none, reached := reader.ending }

/-- What has come of a call: an answer or a failure, and the reader as it is left. -/
abbrev Outcome (α : Type) : Type := Except ReadError α × Reader

/-- The nesting that is left to a reader. -/
def nesting (reader : Reader) : Nesting :=
  { base := reader.depth, limit := reader.maxDepth }

/-- The reader that feeding leaves behind, with the text looked at up to the last lexeme that was
taken from it. -/
def after (reader : Reader) (feeding : Feeding) : Reader :=
  let taken := reader.pending.take (reader.pending.length - feeding.pending.length)
  { reader with
    pending := feeding.pending
    held := feeding.refusal.bind fun refusal => refusal.held
    depth := reader.depth + feeding.assembly.frames.length +
      (feeding.refusal.map fun refusal => refusal.opened).getD 0
    reached := (taken.getLast?.map fun span => span.stop.toNat).getD reader.reached }

/-- What feeding up to the first form comes to. -/
def formOf (reader : Reader) (feeding : Feeding) : Outcome Form :=
  let left := reader.after feeding
  match feeding.refusal, feeding.assembly.forms with
  | some refusal, _ => (.error refusal.error, left)
  | none, form :: _ => (.ok form, left)
  | none, [] =>
    let error := feeding.assembly.endOfInput?.getD (.structural .endOfInput none)
    (.error error, left.atEnd)

/-- What feeding up to the end comes to. Comments among the forms are dropped unless they are to be
kept. -/
def formsOf (reader : Reader) (feeding : Feeding) : Outcome (List Form) :=
  let left := reader.after feeding
  match feeding.refusal, feeding.assembly.endOfInput? with
  | some refusal, _ => (.error refusal.error, left)
  | none, some error => (.error error, left.atEnd)
  | none, none =>
    let forms := feeding.assembly.forms.reverse
    (.ok (forms.filter fun form => reader.keepComments || !form.isComment), left.atEnd)

section

/-! Operations that ask `look` what a lexeme means. -/

variable {m : Type → Type} [Monad m] (look : Span → m (Except ReadError Form))

/-- Looks at the next lexeme without using it. -/
@[specialize]
def peekWith (reader : Reader) : m (Outcome (Option (Form × Span))) :=
  match reader.held with
  | some item => return (.ok (some item), reader)
  | none =>
    match reader.pending with
    | [] => return (.ok none, reader.atEnd)
    | span :: rest => do
      let pulled := { reader with pending := rest, reached := span.stop.toNat }
      match ← look span with
      | .error error => return (.error error, pulled)
      | .ok token =>
        return (.ok (some (token, span)), { pulled with held := some (token, span) })

/-- Uses the next lexeme. -/
@[specialize]
def nextWith (reader : Reader) : m (Outcome (Option (Form × Span))) := do
  match ← reader.peekWith look with
  | (.ok item, reader) => return (.ok item, { reader with held := none })
  | (.error error, reader) => return (.error error, reader)

@[specialize]
def eofWith (reader : Reader) : m (Outcome Bool) := do
  match ← reader.peekWith look with
  | (.ok item, reader) => return (.ok item.isNone, reader)
  | (.error error, reader) => return (.error error, reader)

/-- Passes over the comments in front of a list of lexemes that nothing is held from. -/
@[specialize]
def skipCommentsInWith (reader : Reader) : List Span → m (Outcome Unit)
  | [] => return (.ok (), reader.atEnd)
  | span :: rest => do
    let pulled := { reader with pending := rest, held := none, reached := span.stop.toNat }
    match ← look span with
    | .error error => return (.error error, pulled)
    | .ok token =>
      if token.isComment then pulled.skipCommentsInWith rest
      else return (.ok (), { pulled with held := some (token, span) })

@[specialize]
def skipCommentsWith (reader : Reader) : m (Outcome Unit) :=
  match reader.held with
  | some (token, _) =>
    if token.isComment then reader.skipCommentsInWith look reader.pending
    else return (.ok (), reader)
  | none => reader.skipCommentsInWith look reader.pending

/-- Feeds an empty assembly, first with the lexeme that is held. -/
@[specialize]
def driveWith (reader : Reader) (enough : Assembly → Bool) : m Feeding :=
  match reader.held with
  | none => Assembly.empty.feedWith look reader.nesting enough reader.pending
  | some (token, span) =>
    match Assembly.empty.accept reader.nesting token span with
    | .error refusal =>
      return { assembly := .empty, pending := reader.pending, refusal := some refusal }
    | .ok assembly =>
      if enough assembly then return { assembly, pending := reader.pending }
      else assembly.feedWith look reader.nesting enough reader.pending

/-- Reads one form, or one comment if it comes first. -/
@[specialize]
def readFormWith (reader : Reader) : m (Outcome Form) :=
  reader.formOf <$> reader.driveWith look fun assembly => assembly.frames.isEmpty

/-- Reads all forms that are left. -/
@[specialize]
def readWith (reader : Reader) : m (Outcome (List Form)) :=
  reader.formsOf <$> reader.driveWith look fun _ => false

end

/-! The same operations, with the meanings that lexemes have. -/

def peek (reader : Reader) : Outcome (Option (Form × Span)) :=
  reader.peekWith (m := Id) Span.classify

def next (reader : Reader) : Outcome (Option (Form × Span)) :=
  reader.nextWith (m := Id) Span.classify

def eof (reader : Reader) : Outcome Bool :=
  reader.eofWith (m := Id) Span.classify

def skipCommentsIn (reader : Reader) (spans : List Span) : Outcome Unit :=
  reader.skipCommentsInWith (m := Id) Span.classify spans

def skipComments (reader : Reader) : Outcome Unit :=
  reader.skipCommentsWith (m := Id) Span.classify

def drive (reader : Reader) (enough : Assembly → Bool) : Feeding :=
  reader.driveWith (m := Id) Span.classify enough

def readForm (reader : Reader) : Outcome Form :=
  reader.readFormWith (m := Id) Span.classify

def read (reader : Reader) : Outcome (List Form) :=
  reader.readWith (m := Id) Span.classify

theorem peek_def (reader : Reader) : reader.peek =
    match reader.held with
    | some item => (.ok (some item), reader)
    | none =>
      match reader.pending with
      | [] => (.ok none, reader.atEnd)
      | span :: rest =>
        let pulled := { reader with pending := rest, reached := span.stop.toNat }
        match span.classify with
        | .error error => (.error error, pulled)
        | .ok token => (.ok (some (token, span)), { pulled with held := some (token, span) }) := rfl

theorem next_def (reader : Reader) : reader.next =
    match reader.peek with
    | (.ok item, reader) => (.ok item, { reader with held := none })
    | (.error error, reader) => (.error error, reader) := rfl

theorem eof_def (reader : Reader) : reader.eof =
    match reader.peek with
    | (.ok item, reader) => (.ok item.isNone, reader)
    | (.error error, reader) => (.error error, reader) := rfl

@[simp]
theorem skipCommentsIn_nil (reader : Reader) :
    reader.skipCommentsIn [] = (.ok (), reader.atEnd) := rfl

theorem skipCommentsIn_cons (reader : Reader) (span : Span) (rest : List Span) :
    reader.skipCommentsIn (span :: rest) =
      let pulled := { reader with pending := rest, held := none, reached := span.stop.toNat }
      match span.classify with
      | .error error => (.error error, pulled)
      | .ok token =>
        if token.isComment then pulled.skipCommentsIn rest
        else (.ok (), { pulled with held := some (token, span) }) := rfl

theorem skipComments_def (reader : Reader) : reader.skipComments =
    match reader.held with
    | some (token, _) =>
      if token.isComment then reader.skipCommentsIn reader.pending else (.ok (), reader)
    | none => reader.skipCommentsIn reader.pending := rfl

theorem drive_def (reader : Reader) (enough : Assembly → Bool) : reader.drive enough =
    match reader.held with
    | none => Assembly.empty.feed reader.nesting enough reader.pending
    | some (token, span) =>
      match Assembly.empty.accept reader.nesting token span with
      | .error refusal =>
        { assembly := .empty, pending := reader.pending, refusal := some refusal }
      | .ok assembly =>
        if enough assembly then { assembly, pending := reader.pending }
        else assembly.feed reader.nesting enough reader.pending := rfl

theorem readForm_def (reader : Reader) : reader.readForm =
    reader.formOf (reader.drive fun assembly => assembly.frames.isEmpty) := rfl

theorem read_def (reader : Reader) :
    reader.read = reader.formsOf (reader.drive fun _ => false) := rfl

theorem peek_of_held {reader : Reader} {item : Form × Span} (h : reader.held = some item) :
    reader.peek = (.ok (some item), reader) := by
  rw [peek_def, h]

theorem next_of_held {reader : Reader} {item : Form × Span} (h : reader.held = some item) :
    reader.next = (.ok (some item), { reader with held := none }) := by
  rw [next_def, peek_of_held h]

theorem eof_of_held {reader : Reader} {item : Form × Span} (h : reader.held = some item) :
    reader.eof = (.ok false, reader) := by
  rw [eof_def, peek_of_held h]
  rfl

/-- Reads one form that is no comment. Where there is none, the fault is reported at a position
that the caller gives. -/
def readDatum (reader : Reader) (position : Position) (fault : StructureFault) :
    Except ReadError Form × Reader :=
  match reader.skipComments with
  | (.error error, reader) => (.error error, reader)
  | (.ok (), reader) =>
    match reader.eof with
    | (.error error, reader) => (.error error, reader)
    | (.ok true, reader) => (.error (.structural fault (some position)), reader)
    | (.ok false, reader) => reader.readForm

/-- Reads the only form of a text. -/
def readSingle (reader : Reader) : Except ReadError Form := do
  let (skipped, reader) := reader.skipComments
  skipped
  let (ended, reader) := reader.eof
  if ← ended then throw (.structural .noForm none)
  let (form, reader) := reader.readForm
  let form ← form
  let (skipped, reader) := reader.skipComments
  skipped
  match ← reader.peek.1 with
  | none => return form
  | some (_, span) => throw (StructureFault.trailingInput.atSpan span)

end Reader

/-- The forms of a text. -/
def readText (text : List Char) (keepComments : Bool := false)
    (maxDepth : Int := Reader.defaultMaxDepth) : Except ReadError (List Form) :=
  (Reader.ofText text keepComments maxDepth).read.1

/-- The only form of a text. -/
def readForm (text : List Char) : Except ReadError Form :=
  (Reader.ofText text false Reader.defaultMaxDepth).readSingle

end LispReader
