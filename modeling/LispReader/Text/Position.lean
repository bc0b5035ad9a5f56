/-!
Positions in a text. Lines are counted from one and columns from zero; only a line feed starts a
new line. Offsets count characters, from the beginning of the text or, below zero, from its end.
-/

namespace LispReader.Text

/-- The number of characters before an offset. No offset leads out of the text. -/
def clampOffset (text : List Char) : Int → Nat
  | .ofNat count => min count text.length
  | .negSucc count => text.length - (count + 1)

@[simp]
theorem clampOffset_natCast (text : List Char) (count : Nat) :
    clampOffset text (count : Int) = min count text.length :=
  rfl

/-- A place in a text, as diagnostics name it. -/
structure Position where
  line : Nat
  column : Int
  deriving Repr, DecidableEq, Inhabited

namespace Position

def start : Position := ⟨1, 0⟩

/-- The characters between the last line feed of a text and its end. -/
def lastLine (text : List Char) : List Char :=
  (text.reverse.takeWhile fun c => c != '\n').reverse

/-- Where the last line of a text begins. -/
def lineStart (text : List Char) : Nat :=
  text.length - (lastLine text).length

/-- The position of an offset. The column is the offset less the beginning of its line, so it grows
past the end of the text and is below zero for an offset below zero. -/
def ofOffset (text : List Char) (offset : Int) : Position :=
  let before := text.take (clampOffset text offset)
  { line := before.count '\n' + 1
    column := offset - lineStart before }

theorem length_lastLine_le (text : List Char) : (lastLine text).length ≤ text.length := by
  simpa [lastLine] using
    (List.takeWhile_sublist (fun c => c != '\n') (l := text.reverse)).length_le

/-- Inside a text the column is the number of characters since the last line feed. -/
theorem column_ofOffset {text : List Char} {offset : Nat} (h : offset ≤ text.length) :
    (ofOffset text offset).column = (lastLine (text.take offset)).length := by
  have hLine := length_lastLine_le (text.take offset)
  simp only [ofOffset, lineStart, clampOffset_natCast, Nat.min_eq_left h]
  rw [List.length_take, Nat.min_eq_left h] at *
  omega

/-- Names a position for a diagnostic: its line, a colon, its column. -/
def describe (position : Position) : String :=
  s!"SourceLocation({position.line}:{position.column})"

end Position

end LispReader.Text
