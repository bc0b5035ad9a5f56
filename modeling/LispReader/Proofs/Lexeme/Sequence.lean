import LispReader.Lexeme.Scanner

/-!
The lexemes of a text as plain data: where each begins and which characters it holds. The scanner
lists their spans. A text is taken apart from the front, one blank or one lexeme at a time, so
what follows a lexeme is taken apart like a text of its own.
-/

namespace LispReader.Lexeme

open LispReader.Text

/-- A lexeme at its place. -/
structure Placed where
  start : Nat
  chars : List Char

namespace Placed

/-- The span of a lexeme in the text that it was found in. -/
def span (buffer : List Char) (lexeme : Placed) : Span :=
  ⟨lexeme.start, lexeme.start + lexeme.chars.length, buffer⟩

/-- A lexeme so many characters further on. -/
def shift (count : Nat) (lexeme : Placed) : Placed :=
  ⟨lexeme.start + count, lexeme.chars⟩

/-- The characters of a lexeme stand in a text at its place, and there are some. -/
def FoundIn (lexeme : Placed) (text : List Char) : Prop :=
  lexeme.chars ≠ [] ∧ lexeme.chars <+: text.drop lexeme.start

variable {lexeme : Placed} {text : List Char}

theorem FoundIn.stop_le (h : lexeme.FoundIn text) :
    lexeme.start + lexeme.chars.length ≤ text.length := by
  have hLength := h.2.length_le
  have hPos := List.length_pos_iff.mpr h.1
  rw [List.length_drop] at hLength
  omega

theorem FoundIn.chars_span (h : lexeme.FoundIn text) :
    (lexeme.span text).chars = lexeme.chars := by
  have hStop : lexeme.start + lexeme.chars.length ≤ text.length := h.stop_le
  calc
    (lexeme.span text).chars =
        (text.drop lexeme.start).take (lexeme.start + lexeme.chars.length - lexeme.start) := by
      rw [span, ← Int.natCast_add]
      exact Span.chars_natCast hStop
    _ = lexeme.chars := by
      rw [Nat.add_sub_cancel_left]
      exact (List.prefix_iff_eq_take.mp h.2).symm

end Placed

/-- The lexemes of a text that begins at an offset. -/
def placedFrom (offset : Nat) (text : List Char) : List Placed :=
  match text with
  | [] => []
  | c :: rest =>
    if _h : isBlank c then placedFrom (offset + 1) rest
    else
      let length := lexemeLength (c :: rest)
      ⟨offset, (c :: rest).take length⟩ ::
        placedFrom (offset + length) ((c :: rest).drop length)
termination_by text.length
decreasing_by
  · simp
  · have hPos : 0 < lexemeLength (c :: rest) := lexemeLength_pos (by simpa using _h)
    simp only [List.length_drop, List.length_cons]
    omega

@[simp]
theorem placedFrom_nil (offset : Nat) : placedFrom offset [] = [] := by
  rw [placedFrom.eq_def]

theorem placedFrom_blank {c : Char} (h : isBlank c = true) (offset : Nat) (rest : List Char) :
    placedFrom offset (c :: rest) = placedFrom (offset + 1) rest := by
  rw [placedFrom.eq_def]
  exact dif_pos h

theorem placedFrom_lexeme {c : Char} (h : isBlank c = false) (offset : Nat) (rest : List Char) :
    placedFrom offset (c :: rest) =
      ⟨offset, (c :: rest).take (lexemeLength (c :: rest))⟩ ::
        placedFrom (offset + lexemeLength (c :: rest))
          ((c :: rest).drop (lexemeLength (c :: rest))) := by
  rw [placedFrom.eq_def]
  exact dif_neg (by simp [h])

/-- Blanks in front of a text are passed over. -/
theorem placedFrom_drop_blankLength (offset : Nat) (text : List Char) :
    placedFrom (offset + blankLength text) (text.drop (blankLength text)) =
      placedFrom offset text := by
  induction text generalizing offset with
  | nil => simp
  | cons c rest ih =>
      cases hBlank : isBlank c with
      | false => simp [blankLength, hBlank]
      | true =>
          have hLength : blankLength (c :: rest) = blankLength rest + 1 := by
            simp [blankLength, hBlank]
          rw [hLength, List.drop_succ_cons, placedFrom_blank hBlank, ← ih (offset + 1)]
          congr 1
          omega

/-- A lexeme lies in its text, at its offset. -/
theorem mem_placedFrom {offset : Nat} {text : List Char} {lexeme : Placed}
    (h : lexeme ∈ placedFrom offset text) :
    offset ≤ lexeme.start ∧ lexeme.chars ≠ [] ∧
      lexeme.chars <+: text.drop (lexeme.start - offset) := by
  fun_induction placedFrom offset text with
  | case1 => simp at h
  | case2 offset c rest _ ih =>
      obtain ⟨hLe, hSome, hPrefix⟩ := ih h
      refine ⟨by omega, hSome, ?_⟩
      rwa [show lexeme.start - offset = lexeme.start - (offset + 1) + 1 by omega,
        List.drop_succ_cons]
  | case3 offset c rest hBlank length ih =>
      rcases List.mem_cons.mp h with rfl | hMem
      · have hPos : 0 < lexemeLength (c :: rest) := lexemeLength_pos (by simpa using hBlank)
        refine ⟨Nat.le_refl _, ?_, by simpa using List.take_prefix _ _⟩
        simpa using Nat.ne_of_gt hPos
      · obtain ⟨hLe, hSome, hPrefix⟩ := ih hMem
        refine ⟨by omega, hSome, ?_⟩
        rwa [List.drop_drop, show length + (lexeme.start - (offset + length)) =
          lexeme.start - offset by omega] at hPrefix

/-- Where a text begins makes no difference to its lexemes but for their places. -/
theorem placedFrom_add (offset count : Nat) (text : List Char) :
    placedFrom (offset + count) text = (placedFrom offset text).map (Placed.shift count) := by
  fun_induction placedFrom offset text with
  | case1 => simp
  | case2 offset c rest hBlank ih =>
      rw [placedFrom_blank hBlank, ← ih]
      congr 1
      omega
  | case3 offset c rest hBlank length ih =>
      rw [placedFrom_lexeme (by simpa using hBlank), List.map_cons, ← ih,
        Nat.add_right_comm offset count]
      rfl

theorem foundIn_of_mem_placedFrom {text : List Char} {lexeme : Placed}
    (h : lexeme ∈ placedFrom 0 text) : lexeme.FoundIn text :=
  (mem_placedFrom h).2

end Lexeme

open Lexeme Text

theorem Scanner.placedFrom_skipBlanks (scanner : Scanner) :
    placedFrom scanner.skipBlanks.cursor scanner.skipBlanks.rest =
      placedFrom scanner.cursor scanner.rest :=
  placedFrom_drop_blankLength scanner.cursor scanner.rest

/-- From its cursor on, a scanner finds the lexemes of what is left. -/
theorem Scanner.spans_eq_map (scanner : Scanner) :
    scanner.spans = (placedFrom scanner.cursor scanner.rest).map (Placed.span scanner.buffer) := by
  fun_induction Scanner.spans scanner with
  | case1 scanner after hNext =>
      rw [← scanner.placedFrom_skipBlanks]
      by_cases hRest : scanner.skipBlanks.rest = []
      · simp [hRest]
      · rw [next_of_rest_ne_nil hRest] at hNext
        cases hNext
  | case2 scanner span after hNext ih =>
      rw [← scanner.placedFrom_skipBlanks, ih]
      by_cases hRest : scanner.skipBlanks.rest = []
      · rw [next_of_rest_eq_nil hRest] at hNext
        cases hNext
      · obtain ⟨c, rest, hCons⟩ := List.exists_cons_of_ne_nil hRest
        have hBlank : isBlank c = false := isBlank_eq_false_of_drop_blankLength hCons
        rw [next_of_rest_ne_nil hRest] at hNext
        obtain ⟨hSpan, rfl⟩ := Prod.mk.inj hNext
        have hLength : ((c :: rest).take (lexemeLength (c :: rest))).length =
            lexemeLength (c :: rest) := by
          rw [List.length_take, Nat.min_eq_left (lexemeLength_le _)]
        rw [← Option.some.inj hSpan, hCons, placedFrom_lexeme hBlank]
        simp only [List.map_cons, Placed.span, hLength, advance, hCons]
        rfl

/-- The scanner lists the lexemes of a text. -/
theorem scan_eq_map (text : List Char) :
    scan text = (placedFrom 0 text).map (Placed.span text) :=
  (Scanner.ofText text).spans_eq_map

namespace Lexeme

/-- The characters of the lexemes of a text. -/
def lexemes (text : List Char) : List (List Char) :=
  (scan text).map Span.chars

theorem lexemes_eq_map (text : List Char) :
    lexemes text = (placedFrom 0 text).map Placed.chars := by
  rw [lexemes, scan_eq_map, List.map_map]
  refine List.map_congr_left ?_
  intro lexeme hLexeme
  exact (foundIn_of_mem_placedFrom hLexeme).chars_span

/-- Where a text begins makes no difference to the characters of its lexemes. -/
theorem map_chars_placedFrom (offset : Nat) (text : List Char) :
    (placedFrom offset text).map Placed.chars = lexemes text := by
  have hShift : placedFrom (0 + offset) text = (placedFrom 0 text).map (Placed.shift offset) :=
    placedFrom_add 0 offset text
  rw [Nat.zero_add] at hShift
  rw [lexemes_eq_map, hShift, List.map_map]
  rfl

theorem lexemes_nil : lexemes [] = [] := by
  rw [lexemes_eq_map, placedFrom_nil]
  rfl

theorem lexemes_blank {c : Char} (h : isBlank c = true) (rest : List Char) :
    lexemes (c :: rest) = lexemes rest := by
  rw [lexemes_eq_map, placedFrom_blank h, map_chars_placedFrom]

theorem lexemes_cons {c : Char} (h : isBlank c = false) (rest : List Char) :
    lexemes (c :: rest) =
      (c :: rest).take (lexemeLength (c :: rest)) ::
        lexemes ((c :: rest).drop (lexemeLength (c :: rest))) := by
  rw [lexemes_eq_map, placedFrom_lexeme h, List.map_cons, map_chars_placedFrom]

end Lexeme

end LispReader
