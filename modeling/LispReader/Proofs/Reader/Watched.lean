import LispReader.Reader.Basic

/-!
Calls of a reader. `Call` is what can be asked of a reader, and `runCalls` asks for one thing after
the other, whatever has failed before. A reader can also be watched: it looks the meanings of
lexemes up by a function that notes them, and nothing else is different, so it can be said how often
that is done.
-/

namespace LispReader

/-- What can be asked of a reader. -/
inductive Reader.Call where
  | peek
  | next
  | eof
  | skipComments
  | readForm
  | read
  deriving Repr, DecidableEq

/-- What a reader has to answer, if it does not fail. -/
inductive Reader.Answer where
  | item (item : Option (Form × Span))
  | ended (value : Bool)
  | done
  | form (form : Form)
  | forms (forms : List Form)

/-- An outcome with its answer as one of several kinds. -/
def Reader.Outcome.map {α β : Type} (f : α → β) (outcome : Reader.Outcome α) : Reader.Outcome β :=
  (f <$> outcome.1, outcome.2)

namespace Reader

def Call.run (reader : Reader) : Call → Outcome Answer
  | .peek => Outcome.map .item reader.peek
  | .next => Outcome.map .item reader.next
  | .eof => Outcome.map .ended reader.eof
  | .skipComments => Outcome.map (fun _ => .done) reader.skipComments
  | .readForm => Outcome.map .form reader.readForm
  | .read => Outcome.map .forms reader.read

/-- Asks a reader for one thing after the other. -/
def runCalls (reader : Reader) : List Call → List (Except ReadError Answer) × Reader
  | [] => ([], reader)
  | call :: calls =>
    let (answer, reader) := call.run reader
    let (answers, last) := runCalls reader calls
    (answer :: answers, last)

end Reader

/-- What is done while a note is kept of the lexemes whose meanings are looked up. -/
abbrev Watched : Type → Type := StateM (List Span)

/-- Looks up the meaning of a lexeme, and notes it. -/
def Span.look (span : Span) : Watched (Except ReadError Form) := do
  modify fun looked => looked ++ [span]
  return span.classify

namespace Watched

open Reader (Outcome Answer Call)

def peek (reader : Reader) : Watched (Outcome (Option (Form × Span))) :=
  reader.peekWith Span.look

def next (reader : Reader) : Watched (Outcome (Option (Form × Span))) :=
  reader.nextWith Span.look

def eof (reader : Reader) : Watched (Outcome Bool) :=
  reader.eofWith Span.look

def skipComments (reader : Reader) : Watched (Outcome Unit) :=
  reader.skipCommentsWith Span.look

def readForm (reader : Reader) : Watched (Outcome Form) :=
  reader.readFormWith Span.look

def read (reader : Reader) : Watched (Outcome (List Form)) :=
  reader.readWith Span.look

def call (reader : Reader) : Call → Watched (Outcome Answer)
  | .peek => Outcome.map .item <$> peek reader
  | .next => Outcome.map .item <$> next reader
  | .eof => Outcome.map .ended <$> eof reader
  | .skipComments => Outcome.map (fun _ => .done) <$> skipComments reader
  | .readForm => Outcome.map .form <$> readForm reader
  | .read => Outcome.map .forms <$> read reader

def runCalls (reader : Reader) :
    List Call → Watched (List (Except ReadError Answer) × Reader)
  | [] => return ([], reader)
  | first :: calls => do
    let (answer, reader) ← call reader first
    let (answers, last) ← runCalls reader calls
    return (answer :: answers, last)

/-- An action comes to a result, and looks up these lexemes on the way. -/
def Looks {α : Type} (action : Watched α) (result : α) (looked : List Span) : Prop :=
  ∀ before, action.run before = (result, before ++ looked)

namespace Looks

variable {α β : Type} {action : Watched α} {a : α} {looked : List Span}

theorem pure (a : α) : Looks (pure a) a [] := by
  intro before
  rw [List.append_nil]
  rfl

theorem look (span : Span) : Looks span.look span.classify [span] :=
  fun _ => rfl

theorem bind (h : Looks action a looked) {next : α → Watched β} {b : β} {more : List Span}
    (hNext : Looks (next a) b more) : Looks (action >>= next) b (looked ++ more) := by
  intro before
  rw [StateT.run_bind, h before]
  exact (hNext _).trans (by rw [List.append_assoc])

theorem map (h : Looks action a looked) (f : α → β) : Looks (f <$> action) (f a) looked := by
  intro before
  rw [StateT.run_map, h before]
  rfl

/-- A lexeme is looked up, and what is done next goes by its meaning. -/
theorem look_bind {span : Span} {meaning : Except ReadError Form}
    (hMeaning : span.classify = meaning) {next : Except ReadError Form → Watched β} {b : β}
    {more : List Span} (hNext : Looks (next meaning) b more) :
    Looks (span.look >>= next) b (span :: more) :=
  bind (look span) (hMeaning ▸ hNext)

end Looks

end Watched

end LispReader
