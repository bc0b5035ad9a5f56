import Mathlib.Algebra.GroupWithZero.Nat
import Mathlib.Data.Int.ConditionallyCompleteOrder
import Mathlib.Data.List.TakeWhile
import Mathlib.Data.Prod.Lex
import Mathlib.Order.ConditionallyCompleteLattice.Basic
import LispReader.Lexeme.Span

/-!
The lines of a text and the positions in it. The position of an offset is on one of the lines: the
lines above it, each with its line feed, and the column come to the offset. So a position says which
offset it belongs to, and the positions of a text come in the order of the offsets: line by line,
and along a line column by column.
-/

namespace LispReader

namespace Text

/-- What stands between the line feeds of a text. There is always one line more than line feeds. -/
def lines (text : List Char) : List (List Char) :=
  text.splitOn '\n'

/-- The number of characters in lines that are each followed by a line feed. -/
def lengthOfLines (lines : List (List Char)) : Nat :=
  (lines.map fun line => line.length + 1).sum

@[simp]
theorem lengthOfLines_nil : lengthOfLines [] = 0 := rfl

@[simp]
theorem lengthOfLines_cons (line : List Char) (rest : List (List Char)) :
    lengthOfLines (line :: rest) = line.length + 1 + lengthOfLines rest := by
  simp [lengthOfLines]

@[simp]
theorem lengthOfLines_append (above below : List (List Char)) :
    lengthOfLines (above ++ below) = lengthOfLines above + lengthOfLines below := by
  simp [lengthOfLines]

theorem lines_of_notMem {text : List Char} (h : '\n' ∉ text) : lines text = [text] :=
  List.splitOn_eq_singleton h

theorem lines_append_newline (upper lower : List Char) :
    lines (upper ++ '\n' :: lower) = lines upper ++ lines lower :=
  List.splitOn_append_cons_self upper lower

theorem lines_cons_newline (rest : List Char) : lines ('\n' :: rest) = [] :: lines rest :=
  lines_append_newline [] rest

/-- Any other character is put in front of the first line. -/
theorem exists_lines_cons {c : Char} (h : c ≠ '\n') (rest : List Char) :
    ∃ line below, lines rest = line :: below ∧ lines (c :: rest) = (c :: line) :: below := by
  obtain ⟨line, below, hLines⟩ := List.exists_cons_of_ne_nil (List.splitOn_ne_nil '\n' rest)
  refine ⟨line, below, hLines, ?_⟩
  rw [lines, List.splitOn_cons_eq_if_modifyHead, if_neg (by simpa using h), hLines,
    List.modifyHead_cons]

theorem length_lines (text : List Char) : (lines text).length = text.count '\n' + 1 := by
  induction text with
  | nil => rfl
  | cons c rest ih =>
      by_cases hNewline : c = '\n'
      · subst hNewline
        rw [lines_cons_newline, List.length_cons, ih, List.count_cons_self]
      · obtain ⟨line, below, hRest, hLines⟩ := exists_lines_cons hNewline rest
        rw [hLines, List.count_cons_of_ne hNewline, ← ih, hRest, List.length_cons, List.length_cons]

/-- With a line feed behind the last line too, the lines are one character longer than the text. -/
theorem lengthOfLines_lines (text : List Char) : lengthOfLines (lines text) = text.length + 1 := by
  induction text with
  | nil => rfl
  | cons c rest ih =>
      by_cases hNewline : c = '\n'
      · subst hNewline
        rw [lines_cons_newline, lengthOfLines_cons, ih, List.length_cons, List.length_nil]
        omega
      · obtain ⟨line, below, hRest, hLines⟩ := exists_lines_cons hNewline rest
        rw [hRest, lengthOfLines_cons] at ih
        rw [hLines, lengthOfLines_cons, List.length_cons, List.length_cons]
        omega

namespace Position

theorem notMem_lastLine (text : List Char) : '\n' ∉ lastLine text := by
  rw [lastLine, List.mem_reverse]
  intro h
  simpa using List.mem_takeWhile_imp h

/-- A text is its last line, or else has a line feed in front of the last line. -/
theorem lastLine_eq_or_append (text : List Char) :
    lastLine text = text ∨ ∃ upper, text = upper ++ '\n' :: lastLine text := by
  have hText := List.takeWhile_append_dropWhile (p := fun c => c != '\n') (l := text.reverse)
  cases hRest : text.reverse.dropWhile fun c => c != '\n' with
  | nil =>
      rw [hRest, List.append_nil] at hText
      exact .inl (by rw [lastLine, hText, List.reverse_reverse])
  | cons c rest =>
      have hNewline : c = '\n' := by
        simpa [hRest] using List.head_dropWhile_not (fun c => c != '\n') (l := text.reverse)
          (by simp [hRest])
      rw [hRest, hNewline] at hText
      have hReversed : text.reverse = (lastLine text).reverse ++ '\n' :: rest := by
        rw [lastLine, List.reverse_reverse, hText]
      refine .inr ⟨rest.reverse, ?_⟩
      rw [← List.reverse_inj, hReversed]
      simp

/-- What begins without a line feed begins with a part of its first line. -/
theorem exists_lines_append_of_notMem {line : List Char} (h : '\n' ∉ line) (back : List Char) :
    ∃ ending below, lines (line ++ back) = (line ++ ending) :: below := by
  by_cases hNewline : '\n' ∈ back
  · obtain ⟨ending, rest, rfl, hEnding⟩ := List.eq_append_cons_of_mem hNewline
    have hLine : '\n' ∉ line ++ ending := by
      simp [h, hEnding]
    refine ⟨ending, lines rest, ?_⟩
    rw [← List.append_assoc, lines_append_newline, lines_of_notMem hLine]
    rfl
  · have hLine : '\n' ∉ line ++ back := by
      simp [h, hNewline]
    exact ⟨back, [], lines_of_notMem hLine⟩

/-- Where a text is cut in two, the line there begins with the last line of the front, and the lines
above it are the other lines of the front. -/
theorem exists_lines_append (front back : List Char) :
    ∃ above ending below, lines (front ++ back) = above ++ (lastLine front ++ ending) :: below ∧
      above.length = front.count '\n' ∧
      lengthOfLines above + (lastLine front).length = front.length := by
  have hLast := notMem_lastLine front
  have hFront := lastLine_eq_or_append front
  generalize lastLine front = last at hLast hFront ⊢
  obtain ⟨ending, below, hBack⟩ := exists_lines_append_of_notMem hLast back
  rcases hFront with rfl | ⟨upper, rfl⟩
  · refine ⟨[], ending, below, hBack, ?_, ?_⟩
    · rw [List.length_nil, List.count_eq_zero_of_not_mem hLast]
    · rw [lengthOfLines_nil, Nat.zero_add]
  · refine ⟨lines upper, ending, below, ?_, ?_, ?_⟩
    · rw [List.append_assoc, List.cons_append, lines_append_newline, hBack]
    · rw [length_lines, List.count_append, List.count_cons_self,
        List.count_eq_zero_of_not_mem hLast]
    · rw [lengthOfLines_lines, List.length_append, List.length_cons]
      omega

/-- A position is on one of the lines, before its line feed or at it, and the lines above and the
column come to an offset. -/
structure IsAt (lines : List (List Char)) (offset : Nat) (position : Position) : Prop where
  one_le_line : 1 ≤ position.line
  line_le_length : position.line ≤ lines.length
  column_mem : ∃ line, lines[position.line - 1]? = some line ∧
    0 ≤ position.column ∧ position.column ≤ line.length
  offset_eq : lengthOfLines (lines.take (position.line - 1)) + position.column = offset

/-- The position of an offset is where the offset is. -/
theorem isAt_ofOffset {text : List Char} {offset : Nat} (h : offset ≤ text.length) :
    (ofOffset text offset).IsAt (lines text) offset := by
  obtain ⟨above, ending, below, hLines, hAbove, hOffset⟩ :=
    exists_lines_append (text.take offset) (text.drop offset)
  rw [List.take_append_drop] at hLines
  rw [List.length_take, Nat.min_eq_left h] at hOffset
  have hLine : (ofOffset text offset).line = above.length + 1 := by
    rw [hAbove, ofOffset, clampOffset_natCast, Nat.min_eq_left h]
  have hColumn := column_ofOffset h
  refine {
    one_le_line := ?_
    line_le_length := ?_
    column_mem := ⟨lastLine (text.take offset) ++ ending, ?_, ?_, ?_⟩
    offset_eq := ?_ }
  · rw [hLine]
    exact Nat.le_add_left _ _
  · rw [hLine, hLines, List.length_append, List.length_cons]
    omega
  · rw [hLine, hLines, Nat.add_sub_cancel, List.getElem?_append_right (Nat.le_refl _), Nat.sub_self,
      List.getElem?_cons_zero]
  · rw [hColumn]
    exact Int.natCast_nonneg _
  · rw [hColumn, List.length_append]
    omega
  · rw [hLine, hLines, Nat.add_sub_cancel, List.take_left, hColumn]
    omega

/-- Positions are compared by their lines, and on one line by their columns. -/
def key (position : Position) : Nat ×ₗ Int :=
  toLex (position.line, position.column)

section

variable {lines : List (List Char)} {offset offset' : Nat} {position position' : Position}

/-- A line with its line feed ends where the next line begins, or above. -/
theorem lengthOfLines_take_add_le {index count : Nat} {line : List Char}
    (hLine : lines[index]? = some line) (hCount : index < count) :
    lengthOfLines (lines.take index) + (line.length + 1) ≤ lengthOfLines (lines.take count) := by
  obtain ⟨more, rfl⟩ := Nat.exists_eq_add_of_lt hCount
  have hTake : lines.take (index + 1) = lines.take index ++ [line] := by
    rw [List.take_add_one, hLine, Option.toList_some]
  rw [Nat.add_right_comm, List.take_add, hTake]
  simp only [lengthOfLines_append, lengthOfLines_cons, lengthOfLines_nil]
  omega

/-- An offset is less than what the lines come to that end with its own, line feeds included. -/
theorem IsAt.offset_lt (h : position.IsAt lines offset) {count : Nat}
    (hCount : position.line ≤ count) : offset < lengthOfLines (lines.take count) := by
  obtain ⟨line, hLine, -, hColumn⟩ := h.column_mem
  have hFirst := h.one_le_line
  have hOffset := h.offset_eq
  have hEnd : lengthOfLines (lines.take (position.line - 1)) + (line.length + 1) ≤
      lengthOfLines (lines.take count) := lengthOfLines_take_add_le hLine (by omega)
  omega

theorem IsAt.lt_of_line_lt (h : position.IsAt lines offset) (h' : position'.IsAt lines offset')
    (hLine : position.line < position'.line) : offset < offset' := by
  have hBefore : offset < lengthOfLines (lines.take (position'.line - 1)) :=
    h.offset_lt (Nat.le_sub_one_of_lt hLine)
  obtain ⟨_, -, hColumn, -⟩ := h'.column_mem
  have hOffset := h'.offset_eq
  omega

/-- Positions come in the order of their offsets. -/
theorem IsAt.lt_iff (h : position.IsAt lines offset) (h' : position'.IsAt lines offset') :
    offset < offset' ↔ position.key < position'.key := by
  rw [key, key, Prod.Lex.toLex_lt_toLex]
  rcases Nat.lt_trichotomy position.line position'.line with hLine | hLine | hLine
  · exact iff_of_true (h.lt_of_line_lt h' hLine) (.inl hLine)
  · -- on one line the columns decide
    have hOffset := h.offset_eq
    have hOffset' := h'.offset_eq
    rw [← hLine] at hOffset'
    omega
  · have hGreater := h'.lt_of_line_lt h hLine
    omega

/-- There is one position at an offset. -/
theorem IsAt.unique (h : position.IsAt lines offset) (h' : position'.IsAt lines offset) :
    position = position' := by
  have hKey : position.key = position'.key := by
    apply le_antisymm
    · exact not_lt.mp fun hLess => Nat.lt_irrefl _ ((h'.lt_iff h).mpr hLess)
    · exact not_lt.mp fun hLess => Nat.lt_irrefl _ ((h.lt_iff h').mpr hLess)
  obtain ⟨hLine, hColumn⟩ := Prod.mk.inj (toLex.injective hKey)
  cases position
  cases position'
  cases hLine
  cases hColumn
  rfl

end

theorem IsAt.offset_le {text : List Char} {offset : Nat} {position : Position}
    (h : position.IsAt (lines text) offset) : offset ≤ text.length := by
  have hLess := h.offset_lt h.line_le_length
  rw [List.take_length, lengthOfLines_lines] at hLess
  exact Nat.le_of_lt_succ hLess

end Position

end Text

open Text (Position)

/-- The position of a span is on a line of the text, and with the lines above it comes to the
beginning of the span. So spans that begin at different places have different positions, in the
order of the places, and every position on a line is that of a span. Where the spans end makes no
difference. -/
theorem Span.position_determines_start (buffer : List Char) (stop : Nat → Int) :
    (∀ start ≤ buffer.length,
      (⟨start, stop start, buffer⟩ : Span).position.IsAt (Text.lines buffer) start) ∧
    Set.InjOn (fun start : Nat => (⟨start, stop start, buffer⟩ : Span).position)
      (Set.Iic buffer.length) ∧
    StrictMonoOn (fun start : Nat => (⟨start, stop start, buffer⟩ : Span).position.key)
      (Set.Iic buffer.length) ∧
    ∀ (position : Position) (start : Nat), position.IsAt (Text.lines buffer) start →
      start ≤ buffer.length ∧ (⟨start, stop start, buffer⟩ : Span).position = position := by
  have hAt (start : Nat) (hStart : start ≤ buffer.length) :
      (⟨start, stop start, buffer⟩ : Span).position.IsAt (Text.lines buffer) start :=
    Position.isAt_ofOffset hStart
  have hMono : StrictMonoOn (fun start : Nat => (⟨start, stop start, buffer⟩ : Span).position.key)
      (Set.Iic buffer.length) := by
    intro start hStart start' hStart' hLess
    exact ((hAt start hStart).lt_iff (hAt start' hStart')).mp hLess
  refine ⟨hAt, ?_, hMono, ?_⟩
  · intro start hStart start' hStart' hEqual
    exact hMono.injOn hStart hStart' (congrArg Position.key hEqual)
  · intro position start hPosition
    exact ⟨hPosition.offset_le, (hAt start hPosition.offset_le).unique hPosition⟩

/-- Behind the last line feed there is one more line, without characters. -/
theorem Span.position_determines_start_behind_last_line :
    let buffer := ['a', '\n', '\n', 'b', '\n']
    5 ≤ buffer.length ∧ (⟨5, 5, buffer⟩ : Span).position.IsAt (Text.lines buffer) 5 ∧
    (⟨4, 0⟩ : Position).IsAt (Text.lines buffer) 5 ∧
    (⟨5, 5, buffer⟩ : Span).position = ⟨4, 0⟩ := by
  intro buffer
  obtain ⟨hAt, -, -, hUnique⟩ := Span.position_determines_start buffer fun _ => 5
  have hLast : (⟨4, 0⟩ : Position).IsAt (Text.lines buffer) 5 :=
    ⟨by decide, by decide, ⟨[], by decide, by decide, by decide⟩, by decide⟩
  exact ⟨by decide, hAt 5 (by decide), hLast, (hUnique _ 5 hLast).2⟩

end LispReader
