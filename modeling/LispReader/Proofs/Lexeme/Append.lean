import Mathlib.Data.List.Forall2
import LispReader.Proofs.Lexeme.Open

/-!
A line put behind a text. The lexemes of the text stay where they are, and those of the line come
behind them, at their own columns and so many lines further down.
-/

namespace LispReader

namespace Text.Position

/-- The position in the same column, a number of lines further down. -/
def down (lines : Nat) (position : Position) : Position :=
  { position with line := position.line + lines }

theorem lastLine_append_newline (first second : List Char) :
    lastLine (first ++ '\n' :: second) = lastLine second := by
  unfold lastLine
  rw [List.reverse_append, List.reverse_cons, List.append_assoc, List.takeWhile_append]
  split
  · next hLength =>
      rw [(List.takeWhile_prefix _).eq_of_length hLength]
      simp
  · rfl

theorem ofOffset_append_left {text : List Char} {offset : Nat} (h : offset ≤ text.length)
    (rest : List Char) : ofOffset (text ++ rest) offset = ofOffset text offset := by
  have hLong : offset ≤ (text ++ rest).length := by
    rw [List.length_append]
    omega
  unfold ofOffset
  rw [clampOffset_natCast, clampOffset_natCast, Nat.min_eq_left h, Nat.min_eq_left hLong,
    List.take_append_of_le_length h]

/-- Behind a line end only the line of a position depends on what is in front of it. -/
theorem ofOffset_append_newline (first : List Char) {second : List Char} {offset : Nat}
    (h : offset ≤ second.length) :
    ofOffset (first ++ '\n' :: second) ((offset + (first.length + 1) : Nat) : Int) =
      (ofOffset second offset).down (first.count '\n' + 1) := by
  have hTake : (first ++ '\n' :: second).take (offset + (first.length + 1)) =
      first ++ '\n' :: second.take offset := by
    rw [show offset + (first.length + 1) = first.length + (offset + 1) by omega,
      List.take_length_add_append, List.take_succ_cons]
  have hLong : offset + (first.length + 1) ≤ (first ++ '\n' :: second).length := by
    rw [List.length_append, List.length_cons]
    omega
  have hColumn :
      (ofOffset (first ++ '\n' :: second) ((offset + (first.length + 1) : Nat) : Int)).column =
        (ofOffset second offset).column := by
    rw [column_ofOffset hLong, column_ofOffset h, hTake, lastLine_append_newline]
  have hLine :
      (ofOffset (first ++ '\n' :: second) ((offset + (first.length + 1) : Nat) : Int)).line =
        (ofOffset second offset).line + (first.count '\n' + 1) := by
    simp only [ofOffset, clampOffset_natCast, Nat.min_eq_left h, Nat.min_eq_left hLong, hTake,
      List.count_append, List.count_cons_self]
    omega
  unfold down
  rw [← hColumn, ← hLine]

end Text.Position

open Text (Position)

/-- The same characters in the same column, a number of lines further down. -/
structure Span.Below (lines : Nat) (lower upper : Span) : Prop where
  chars_eq : lower.chars = upper.chars
  position_eq : lower.position = upper.position.down lines

namespace Lexeme

variable {lexeme : Placed} {text : List Char}

namespace Placed

theorem FoundIn.append (h : lexeme.FoundIn text) (rest : List Char) :
    lexeme.FoundIn (text ++ rest) := by
  have hStop : lexeme.start + lexeme.chars.length ≤ text.length := h.stop_le
  refine ⟨h.1, ?_⟩
  rw [List.drop_append_of_le_length (by omega)]
  exact h.2.trans (List.prefix_append _ _)

theorem FoundIn.shift (h : lexeme.FoundIn text) (first : List Char) :
    (lexeme.shift (first.length + 1)).FoundIn (first ++ '\n' :: text) := by
  refine ⟨h.1, ?_⟩
  have hDrop : (first ++ '\n' :: text).drop (lexeme.start + (first.length + 1)) =
      text.drop lexeme.start := by
    rw [show lexeme.start + (first.length + 1) = first.length + (lexeme.start + 1) by omega,
      List.drop_length_add_append, List.drop_succ_cons]
  unfold Placed.shift
  rw [hDrop]
  exact h.2

theorem FoundIn.span_append (h : lexeme.FoundIn text) (rest : List Char) :
    (lexeme.span (text ++ rest)).Below 0 (lexeme.span text) where
  chars_eq := (h.append rest).chars_span.trans h.chars_span.symm
  position_eq := Position.ofOffset_append_left (by have := h.stop_le; omega) rest

theorem FoundIn.span_shift (h : lexeme.FoundIn text) (first : List Char) :
    ((lexeme.shift (first.length + 1)).span (first ++ '\n' :: text)).Below
      (first.count '\n' + 1) (lexeme.span text) where
  chars_eq := (h.shift first).chars_span.trans h.chars_span.symm
  position_eq := Position.ofOffset_append_newline first (by have := h.stop_le; omega)

end Placed

end Lexeme

open Lexeme

/-- The lexemes of a text with a line behind it are those of the text, if the last of them is not
open, and below them those of the line. -/
theorem scan_append_newline {first : List Char}
    (h : ∀ span ∈ (scan first).getLast?, isOpen span.chars = false) (second : List Char) :
    ∃ upper lower, scan (first ++ '\n' :: second) = upper ++ lower ∧
      List.Forall₂ (Span.Below 0) upper (scan first) ∧
      List.Forall₂ (Span.Below (first.count '\n' + 1)) lower (scan second) := by
  have hLast : ∀ lexeme ∈ (placedFrom 0 first).getLast?, isOpen lexeme.chars = false := by
    intro lexeme hLexeme
    rw [← (foundIn_of_mem_placedFrom (List.mem_of_getLast? hLexeme)).chars_span]
    refine h _ ?_
    rw [scan_eq_map, List.getLast?_map, hLexeme]
    rfl
  have hPlaced : placedFrom 0 (first ++ '\n' :: second) =
      placedFrom 0 first ++ (placedFrom 0 second).map (Placed.shift (first.length + 1)) := by
    rw [placedFrom_append_newline hLast, ← placedFrom_add, Nat.add_assoc]
  rw [scan_eq_map, scan_eq_map, scan_eq_map, hPlaced, List.map_append, List.map_map]
  refine ⟨_, _, rfl, ?_, ?_⟩
  · rw [List.forall₂_map_left_iff, List.forall₂_map_right_iff, List.forall₂_same]
    intro lexeme hLexeme
    exact (foundIn_of_mem_placedFrom hLexeme).span_append _
  · rw [List.forall₂_map_left_iff, List.forall₂_map_right_iff, List.forall₂_same]
    intro lexeme hLexeme
    exact (foundIn_of_mem_placedFrom hLexeme).span_shift first

end LispReader
