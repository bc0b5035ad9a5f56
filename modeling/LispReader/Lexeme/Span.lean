import LispReader.Text.Position
import LispReader.Text.Quoted

/-!
Spans: ranges of a text, from an offset up to another one. A lexeme is the text of its span, and
its position is that of the span's beginning.
-/

namespace LispReader

/-- A range of a text. An end below zero counts from the end of the text. -/
structure Span where
  start : Int
  stop : Int
  buffer : List Char
  deriving Repr, DecidableEq, Inhabited

namespace Span

/-- The characters in the range. What lies outside of the text is left out, and a range that ends
before it begins is empty. -/
def chars (span : Span) : List Char :=
  let first := Text.clampOffset span.buffer span.start
  (span.buffer.drop first).take (Text.clampOffset span.buffer span.stop - first)

/-- The range between two places of a text holds what lies between them. -/
theorem chars_natCast {buffer : List Char} {start stop : Nat} (hStop : stop ≤ buffer.length) :
    (⟨start, stop, buffer⟩ : Span).chars = (buffer.drop start).take (stop - start) := by
  simp only [chars, Text.clampOffset_natCast, Nat.min_eq_left hStop]
  rcases Nat.le_total start buffer.length with hStart | hStart
  · rw [Nat.min_eq_left hStart]
  · rw [Nat.min_eq_right hStart, Nat.sub_eq_zero_of_le hStop,
      Nat.sub_eq_zero_of_le (Nat.le_trans hStop hStart), List.take_zero, List.take_zero]

def text (span : Span) : String :=
  String.ofList span.chars

def position (span : Span) : Text.Position :=
  .ofOffset span.buffer span.start

/-- Names a span for a diagnostic: its text and its ends. -/
def describe (span : Span) : String :=
  s!"Span({Text.quote span.text}, {span.start}:{span.stop})"

end Span

end LispReader
