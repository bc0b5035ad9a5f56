import LispReader.Lexeme.Rule
import LispReader.Reader.Fault

/-!
Assembly of forms. An assembly is a stack of frames, one for each list and each quote mark that is
open, over the forms that are finished. Tokens are accepted one by one: `accept` says what a token
does to an assembly, and `feed` hands over the lexemes of a list until one is refused or enough
has been read.

A finished form goes to the innermost frame. A list keeps it as an item; behind a dot it becomes
the tail; a quote mark is finished by it and hands on the quoted form.
-/

namespace LispReader

/-- A list or a quote mark whose end has not been read. -/
inductive Frame where
  /-- A list, with its items so far, latest first. -/
  | list (opening : Span) (items : List Form)
  /-- A list whose dot has been read. -/
  | dotted (opening dot : Span) (items : List Form)
  /-- A list whose dot and tail have been read. -/
  | closing (opening : Span) (items : List Form) (tail : Form)
  /-- A quote mark, with the operator it stands for. -/
  | quote (mark : Span) (operator : Value)

/-- Frames, innermost first, and finished forms, latest first. -/
structure Assembly where
  frames : List Frame
  forms : List Form

/-- How deep forms may nest: the number of levels that are open from outside, and the greatest
number of levels. -/
structure Nesting where
  base : Nat
  limit : Int

/-- Why a token or a lexeme is not taken. -/
structure Refusal where
  error : ReadError
  /-- The lexeme that stays to be read again, with its token. -/
  held : Option (Form × Span) := none
  /-- The number of levels that count as open in addition to the frames. -/
  opened : Nat := 0

/-- The meaning of a lexeme, or the failure at its place. -/
def Span.classify (span : Span) : Except ReadError Form :=
  match Lexeme.classify span.chars with
  | .ok form => .ok form
  | .error fault => .error (.lexeme fault (some span.position))

namespace StructureFault

/-- A fault at the beginning of a span. -/
def atSpan (fault : StructureFault) (span : Span) : ReadError :=
  .structural fault (some span.position)

end StructureFault

namespace Frame

/-- What is wrong if the text ends inside a frame. -/
def endOfInput : Frame → ReadError
  | .list opening _ | .dotted opening _ _ | .closing opening _ _ =>
    StructureFault.unterminatedList.atSpan opening
  | .quote mark _ => (StructureFault.expectedAfter mark.text).atSpan mark

end Frame

namespace Assembly

def empty : Assembly := ⟨[], []⟩

/-- Hands a finished form to the innermost frame. A list whose tail has been read takes no form;
`accept` sees to it that none gets there. -/
def deliver (forms : List Form) (form : Form) : List Frame → Assembly
  | [] => ⟨[], form :: forms⟩
  | .list opening items :: outer => ⟨.list opening (form :: items) :: outer, forms⟩
  | .dotted opening _ items :: outer => ⟨.closing opening items form :: outer, forms⟩
  | .closing opening items tail :: outer => ⟨.closing opening items tail :: outer, forms⟩
  | .quote _ operator :: outer => deliver forms (.quoteForm operator form) outer

/-- Opens a frame, if there is a level left for it. -/
def enter (nesting : Nesting) (assembly : Assembly) (frame : Frame) (span : Span) :
    Except Refusal Assembly :=
  if nesting.limit < nesting.base + assembly.frames.length + 1 then
    .error { error := (StructureFault.tooDeep nesting.limit).atSpan span, opened := 1 }
  else .ok { assembly with frames := frame :: assembly.frames }

/-- Accepts a token where a form may begin. A comment is dropped inside a frame; outside of all
frames it is kept in place of a form. -/
def acceptForm (nesting : Nesting) (assembly : Assembly) (token : Form) (span : Span) :
    Except Refusal Assembly :=
  match token with
  | .listStart => enter nesting assembly (.list span []) span
  | .listEnd => .error { error := StructureFault.unexpectedClose.atSpan span }
  | .dot => .error { error := StructureFault.strayDot.atSpan span }
  | .quotePrefix operator => enter nesting assembly (.quote span operator) span
  | .comment _ _ =>
    if assembly.frames.isEmpty then .ok { assembly with forms := token :: assembly.forms }
    else .ok assembly
  | form => .ok (deliver assembly.forms form assembly.frames)

/-- Accepts a token. Inside a list a closing parenthesis ends it, and a dot announces its tail if
there is an item before it. -/
def accept (nesting : Nesting) (assembly : Assembly) (token : Form) (span : Span) :
    Except Refusal Assembly :=
  match assembly.frames with
  | .list opening items :: outer =>
    match token with
    | .listEnd => .ok (deliver assembly.forms (.properList items.reverse) outer)
    | .dot =>
      if items.isEmpty then .error { error := StructureFault.nothingBeforeDot.atSpan span }
      else .ok { assembly with frames := .dotted opening span items :: outer }
    | form => acceptForm nesting assembly form span
  | .dotted _ dot _ :: _ =>
    match token with
    | .listEnd =>
      .error { error := StructureFault.nothingAfterDot.atSpan dot, held := some (token, span) }
    | form => acceptForm nesting assembly form span
  | .closing _ items tail :: outer =>
    match token with
    | .listEnd => .ok (deliver assembly.forms (.chain items.reverse tail) outer)
    | .comment _ _ => .ok assembly
    | _ =>
      .error { error := StructureFault.severalAfterDot.atSpan span, held := some (token, span) }
  | _ => acceptForm nesting assembly token span

/-- Accepts the token that a lexeme means. A lexeme without a meaning is refused. -/
def acceptMeaning (nesting : Nesting) (assembly : Assembly) (span : Span) :
    Except ReadError Form → Except Refusal Assembly
  | .error error => .error { error }
  | .ok token => assembly.accept nesting token span

/-- Classifies a lexeme and accepts its token. -/
def acceptSpan (nesting : Nesting) (assembly : Assembly) (span : Span) :
    Except Refusal Assembly :=
  assembly.acceptMeaning nesting span span.classify

/-- What is wrong if the text ends here. Nothing is, where no frame is open. -/
def endOfInput? (assembly : Assembly) : Option ReadError :=
  assembly.frames.head?.map Frame.endOfInput

end Assembly

/-- Where feeding has stopped: the assembly so far, the lexemes that were not looked at, and the
refusal if there was one. -/
structure Feeding where
  assembly : Assembly
  pending : List Span
  refusal : Option Refusal := none

namespace Assembly

/-- Feeds lexemes to an assembly until one is refused, or `enough` holds after one, or none is
left. What a lexeme means is asked of `look`. -/
@[specialize]
def feedWith {m : Type → Type} [Monad m] (look : Span → m (Except ReadError Form))
    (nesting : Nesting) (enough : Assembly → Bool) (assembly : Assembly) : List Span → m Feeding
  | [] => return { assembly, pending := [] }
  | span :: rest => do
    match assembly.acceptMeaning nesting span (← look span) with
    | .error refusal => return { assembly, pending := rest, refusal := some refusal }
    | .ok next =>
      if enough next then return { assembly := next, pending := rest }
      else next.feedWith look nesting enough rest

/-- Feeds lexemes with the meanings that they have. -/
def feed (nesting : Nesting) (enough : Assembly → Bool) (assembly : Assembly)
    (spans : List Span) : Feeding :=
  assembly.feedWith (m := Id) Span.classify nesting enough spans

@[simp]
theorem feed_nil (nesting : Nesting) (enough : Assembly → Bool) (assembly : Assembly) :
    assembly.feed nesting enough [] = { assembly, pending := [] } := rfl

theorem feed_cons (nesting : Nesting) (enough : Assembly → Bool) (assembly : Assembly)
    (span : Span) (rest : List Span) :
    assembly.feed nesting enough (span :: rest) =
      match assembly.acceptSpan nesting span with
      | .error refusal => { assembly, pending := rest, refusal := some refusal }
      | .ok next =>
        if enough next then { assembly := next, pending := rest }
        else next.feed nesting enough rest := by
  rw [acceptSpan, feed, feedWith]
  rfl

end Assembly

end LispReader
