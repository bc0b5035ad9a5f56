import LispReader.Proofs.Lexeme.Sequence

/-!
How a scanner goes through a text. The spans of a text take it apart: they stand in order and do not
meet, and what they leave out is blank, so that the gaps and the lexemes by turns are the text
again. A cursor that is moved by hand stays in the text and never goes back, whatever the moves are,
and from wherever it has come to, the next lexeme takes it further on.
-/

namespace LispReader

open Lexeme Text

namespace Span

/-- Whether a place of the text lies in a span. -/
def Covers (span : Span) (place : Nat) : Prop :=
  span.start ≤ place ∧ (place : Int) < span.stop

instance (span : Span) (place : Nat) : Decidable (span.Covers place) :=
  inferInstanceAs (Decidable (_ ∧ _))

end Span

/-- What is left out of a text by spans, from a place on: what stands in front of each of them, and
what stands behind the last one. -/
def gaps (text : List Char) (place : Nat) : List Span → List (List Char)
  | [] => [text.drop place]
  | span :: rest =>
    (text.drop place).take (span.start.toNat - place) :: gaps text span.stop.toNat rest

/-- Gaps and lexemes by turns. There is one more gap than there are lexemes. -/
def weave : List (List Char) → List (List Char) → List Char
  | gap :: gaps, lexeme :: lexemes => gap ++ lexeme ++ weave gaps lexemes
  | gaps, _ => gaps.flatten

/-- Spans that take a text apart. -/
structure Partition (text : List Char) (spans : List Span) : Prop where
  inside : ∀ span ∈ spans, span.buffer = text ∧ 0 ≤ span.start ∧ span.start < span.stop ∧
    span.stop ≤ text.length
  nonempty : ∀ span ∈ spans, span.chars ≠ []
  ordered : spans.Pairwise fun first second =>
    first.start < second.start ∧ first.stop ≤ second.start
  blank_outside : ∀ place c, text[place]? = some c → (∀ span ∈ spans, ¬ span.Covers place) →
    isBlank c = true
  blank_gaps : ∀ gap ∈ gaps text 0 spans, ∀ c ∈ gap, isBlank c = true
  woven : weave (gaps text 0 spans) (spans.map Span.chars) = text

namespace Lexeme

namespace Placed

/-- Whether a lexeme lies at a place. -/
theorem covers_span_iff {lexeme : Placed} {buffer : List Char} {place : Nat} :
    (lexeme.span buffer).Covers place ↔
      lexeme.start ≤ place ∧ place < lexeme.start + lexeme.chars.length := by
  simp only [Span.Covers, span]
  omega

end Placed

theorem length_take_lexemeLength (text : List Char) :
    (text.take (lexemeLength text)).length = lexemeLength text := by
  rw [List.length_take, Nat.min_eq_left (lexemeLength_le text)]

/-- What stands between two places, and what stands behind the second one. -/
theorem take_sub_append_drop (text : List Char) {place offset : Nat} (h : place ≤ offset) :
    (text.drop place).take (offset - place) ++ text.drop offset = text.drop place := by
  have hDrop : text.drop offset = (text.drop place).drop (offset - place) := by
    rw [List.drop_drop, Nat.add_sub_cancel' h]
  rw [hDrop, List.take_append_drop]

/-- A lexeme that comes behind another one begins behind its end. -/
theorem pairwise_placedFrom (offset : Nat) (text : List Char) :
    (placedFrom offset text).Pairwise fun first second =>
      first.start + first.chars.length ≤ second.start := by
  fun_induction placedFrom offset text with
  | case1 => exact .nil
  | case2 offset c rest _ ih => exact ih
  | case3 offset c rest _ length ih =>
      refine .cons (fun second hSecond => ?_) ih
      have hStart := (mem_placedFrom hSecond).1
      have hLength : ((c :: rest).take length).length ≤ length := List.length_take_le _ _
      exact Nat.le_trans (Nat.add_le_add_left hLength offset) hStart

/-- What no lexeme of a text lies at is blank. -/
theorem isBlank_of_not_covered (offset : Nat) (text : List Char) :
    ∀ place c, text[place]? = some c →
      (∀ lexeme ∈ placedFrom offset text,
        ¬ (lexeme.start ≤ offset + place ∧
          offset + place < lexeme.start + lexeme.chars.length)) →
      isBlank c = true := by
  fun_induction placedFrom offset text with
  | case1 =>
      intro place c hPlace
      cases hPlace
  | case2 offset d rest hBlank ih =>
      intro place c hPlace hOutside
      cases place with
      | zero => exact Option.some.inj hPlace ▸ hBlank
      | succ place =>
          refine ih place c hPlace fun lexeme hLexeme => ?_
          rw [Nat.add_right_comm offset 1 place]
          exact hOutside lexeme hLexeme
  | case3 offset d rest hBlank length ih =>
      intro place c hPlace hOutside
      have hBehind : length ≤ place := by
        have hFirst := hOutside _ List.mem_cons_self
        have hLength := length_take_lexemeLength (d :: rest)
        simp only [length] at hFirst ⊢
        omega
      obtain ⟨behind, rfl⟩ := Nat.exists_eq_add_of_le hBehind
      refine ih behind c (by rwa [List.getElem?_drop]) fun lexeme hLexeme => ?_
      rw [Nat.add_assoc offset length behind]
      exact hOutside lexeme (List.mem_cons_of_mem _ hLexeme)

/-- From a place on, with nothing but blanks between it and the lexemes, the gaps are blank, and
they are the text again together with the lexemes. -/
theorem gaps_placedFrom (buffer : List Char) (offset : Nat) (text : List Char) :
    text = buffer.drop offset → ∀ place ≤ offset,
      (∀ c ∈ (buffer.drop place).take (offset - place), isBlank c = true) →
      (∀ gap ∈ gaps buffer place ((placedFrom offset text).map (Placed.span buffer)),
        ∀ c ∈ gap, isBlank c = true) ∧
      weave (gaps buffer place ((placedFrom offset text).map (Placed.span buffer)))
        ((placedFrom offset text).map Placed.chars) = buffer.drop place := by
  fun_induction placedFrom offset text with
  | case1 offset =>
      intro hText place hPlace hBlank
      have hAll : (buffer.drop place).take (offset - place) = buffer.drop place := by
        have hSplit := take_sub_append_drop buffer hPlace
        rwa [← hText, List.append_nil] at hSplit
      rw [hAll] at hBlank
      simpa [gaps, weave] using hBlank
  | case2 offset d rest hFirst ih =>
      intro hText place hPlace hBlank
      have hRest : rest = buffer.drop (offset + 1) := by
        rw [← List.drop_drop, ← hText, List.drop_one, List.tail_cons]
      have hTake : (buffer.drop place).take (offset + 1 - place) =
          (buffer.drop place).take (offset - place) ++ [d] := by
        rw [Nat.sub_add_comm hPlace, List.take_add, List.drop_drop, Nat.add_sub_cancel' hPlace,
          ← hText]
        rfl
      refine ih hRest place (Nat.le_succ_of_le hPlace) fun c hc => ?_
      rw [hTake] at hc
      rcases List.mem_append.mp hc with hc | hc
      · exact hBlank c hc
      · rw [List.mem_singleton.mp hc]
        exact hFirst
  | case3 offset d rest hFirst length ih =>
      intro hText place hPlace hBlank
      let first : Placed := ⟨offset, (d :: rest).take length⟩
      have hRest : (d :: rest).drop length = buffer.drop (offset + length) := by
        rw [hText, List.drop_drop]
      obtain ⟨hGaps, hWoven⟩ := ih hRest (offset + length) (Nat.le_refl _) (by simp)
      have hStart : (first.span buffer).start.toNat = offset := rfl
      have hStop : (first.span buffer).stop.toNat = offset + length := by
        have hLength : first.chars.length = length := length_take_lexemeLength (d :: rest)
        simp only [Placed.span, hLength, first]
        omega
      rw [List.map_cons, List.map_cons, gaps, hStart, hStop]
      refine ⟨List.forall_mem_cons.mpr ⟨hBlank, hGaps⟩, ?_⟩
      rw [weave, hWoven, ← hRest, List.append_assoc, List.take_append_drop, hText]
      exact take_sub_append_drop buffer hPlace

end Lexeme

/-- The spans of a text take it apart. -/
theorem partition_scan (text : List Char) : Partition text (scan text) := by
  have hFound : ∀ span ∈ scan text, ∃ lexeme ∈ placedFrom 0 text,
      lexeme.span text = span ∧ lexeme.FoundIn text := by
    intro span hSpan
    rw [scan_eq_map] at hSpan
    obtain ⟨lexeme, hLexeme, hSpan⟩ := List.mem_map.mp hSpan
    exact ⟨lexeme, hLexeme, hSpan, foundIn_of_mem_placedFrom hLexeme⟩
  obtain ⟨hGaps, hWoven⟩ := gaps_placedFrom text 0 text List.drop_zero.symm 0 (Nat.le_refl 0)
    (by simp)
  refine ⟨?_, ?_, ?_, ?_, ?_, ?_⟩
  · intro span hSpan
    obtain ⟨lexeme, -, rfl, hLexeme⟩ := hFound span hSpan
    have hStop := hLexeme.stop_le
    have hPos := List.length_pos_iff.mpr hLexeme.1
    simp only [Placed.span, true_and]
    omega
  · intro span hSpan
    obtain ⟨lexeme, -, rfl, hLexeme⟩ := hFound span hSpan
    rw [hLexeme.chars_span]
    exact hLexeme.1
  · rw [scan_eq_map, List.pairwise_map]
    refine (pairwise_placedFrom 0 text).imp_of_mem fun hFirst _ hOrder => ?_
    have hPos := List.length_pos_iff.mpr (foundIn_of_mem_placedFrom hFirst).1
    simp only [Placed.span]
    omega
  · intro place c hPlace hOutside
    refine isBlank_of_not_covered 0 text place c hPlace fun lexeme hLexeme => ?_
    have hSpan : lexeme.span text ∈ scan text := by
      rw [scan_eq_map]
      exact List.mem_map_of_mem hLexeme
    rw [Nat.zero_add]
    exact fun hCovered => hOutside _ hSpan (Placed.covers_span_iff.mpr hCovered)
  · rw [scan_eq_map]
    exact hGaps
  · rw [← lexemes, lexemes_eq_map, scan_eq_map, hWoven, List.drop_zero]

namespace Scanner

/-- Asking for the next lexeme again and again gives these spans, and then there is none. -/
inductive Yields : Scanner → List Span → Prop where
  | done {scanner after : Scanner} (ended : scanner.next = (none, after)) : Yields scanner []
  | more {scanner after : Scanner} {span : Span} {spans : List Span}
      (found : scanner.next = (some span, after)) (rest : Yields after spans) :
      Yields scanner (span :: spans)

theorem yields_spans (scanner : Scanner) : scanner.Yields scanner.spans := by
  fun_induction spans scanner with
  | case1 scanner after hNext => exact .done hNext
  | case2 scanner span after hNext ih => exact .more hNext ih

/-- What moves a cursor. -/
inductive Move where
  | next
  | skipBlanks
  | skipLine
  | skipAtom
  | skipString
  deriving Repr, DecidableEq

/-- The scanner after a move. A string is passed over only where a double quote stands. -/
def move? (scanner : Scanner) : Move → Option Scanner
  | .next => some scanner.next.2
  | .skipBlanks => some scanner.skipBlanks
  | .skipLine => some scanner.skipLine
  | .skipAtom => some scanner.skipAtom
  | .skipString => scanner.skipString?

/-- The scanner after moves, one behind the other. -/
def moves? (scanner : Scanner) (moves : List Move) : Option Scanner :=
  moves.foldlM move? scanner

/-- A scanner over a text, with its cursor somewhere in it. -/
structure Over (text : List Char) (scanner : Scanner) : Prop where
  buffer_eq : scanner.buffer = text
  cursor_le : scanner.cursor ≤ text.length

variable {text : List Char} {scanner after : Scanner}

theorem over_ofText (text : List Char) : (ofText text).Over text :=
  ⟨rfl, Nat.zero_le _⟩

theorem Over.length_rest (h : scanner.Over text) :
    scanner.cursor + scanner.rest.length = text.length := by
  rw [scanner.rest_eq, h.buffer_eq, List.length_drop]
  exact Nat.add_sub_cancel' h.cursor_le

/-- No further than to the end a cursor stays in its text. -/
theorem Over.advance (h : scanner.Over text) {count : Nat} (hCount : count ≤ scanner.rest.length) :
    (scanner.advance count).Over text := by
  refine ⟨h.buffer_eq, ?_⟩
  rw [← h.length_rest]
  exact Nat.add_le_add_left hCount _

theorem Over.skipBlanks (h : scanner.Over text) : scanner.skipBlanks.Over text :=
  h.advance (blankLength_le _)

theorem cursor_le_skipBlanks (scanner : Scanner) : scanner.cursor ≤ scanner.skipBlanks.cursor :=
  Nat.le_add_right _ _

/-- At the end of the text there is no next lexeme, and elsewhere the cursor goes behind it. -/
theorem Over.next (h : scanner.Over text) :
    scanner.next.2.Over text ∧
      ((scanner.next.1 = none ∧ scanner.cursor ≤ scanner.next.2.cursor ∧
          scanner.next.2.cursor = text.length) ∨
        (scanner.next.1.isSome = true ∧ scanner.cursor < scanner.next.2.cursor)) := by
  have hSkip : scanner.cursor ≤ scanner.skipBlanks.cursor := scanner.cursor_le_skipBlanks
  by_cases hRest : scanner.skipBlanks.rest = []
  · have hLength := h.skipBlanks.length_rest
    rw [hRest, List.length_nil, Nat.add_zero] at hLength
    rw [next_of_rest_eq_nil hRest]
    exact ⟨h.skipBlanks, .inl ⟨rfl, hSkip, hLength⟩⟩
  · obtain ⟨c, rest, hCons⟩ := List.exists_cons_of_ne_nil hRest
    have hBlank : isBlank c = false := isBlank_eq_false_of_drop_blankLength hCons
    have hPos : 0 < lexemeLength scanner.skipBlanks.rest := by
      rw [hCons]
      exact lexemeLength_pos hBlank
    rw [next_of_rest_ne_nil hRest]
    refine ⟨h.skipBlanks.advance (lexemeLength_le _), .inr ⟨rfl, ?_⟩⟩
    exact Nat.lt_of_le_of_lt hSkip (Nat.lt_add_of_pos_right hPos)

/-- A move does not take the cursor back, nor out of the text. -/
theorem Over.move? (h : scanner.Over text) {move : Move} (hMove : scanner.move? move = some after) :
    after.Over text ∧ scanner.cursor ≤ after.cursor := by
  cases move with
  | next =>
      cases hMove
      obtain ⟨hOver, hEnded | hFound⟩ := h.next
      · exact ⟨hOver, hEnded.2.1⟩
      · exact ⟨hOver, Nat.le_of_lt hFound.2⟩
  | skipBlanks =>
      cases hMove
      exact ⟨h.skipBlanks, scanner.cursor_le_skipBlanks⟩
  | skipLine =>
      cases hMove
      exact ⟨h.advance (lineLength_le _), Nat.le_add_right _ _⟩
  | skipAtom =>
      cases hMove
      exact ⟨h.advance (atomLength_le _), Nat.le_add_right _ _⟩
  | skipString =>
      simp only [Scanner.move?, skipString?] at hMove
      split at hMove
      · next tail hRest =>
          cases hMove
          refine ⟨h.advance ?_, Nat.le_add_right _ _⟩
          rw [hRest, List.length_cons]
          exact Nat.succ_le_succ (stringTailLength_le tail)
      · cases hMove

/-- What a move keeps, moves keep. -/
theorem Over.moves? {moves : List Move} (h : scanner.Over text)
    (hMoves : scanner.moves? moves = some after) : after.Over text := by
  induction moves generalizing scanner with
  | nil =>
      cases hMoves
      exact h
  | cons move moves ih =>
      rw [Scanner.moves?, List.foldlM_cons] at hMoves
      obtain ⟨between, hMove, hRest⟩ := Option.bind_eq_some_iff.mp hMoves
      exact ih (h.move? hMove).1 hRest

end Scanner

/-- Scanning ends and takes the text apart. From every cursor that moves can reach, a move keeps the
cursor in the text and does not take it back, and the next lexeme, where there is one, takes it
further on. -/
theorem scan_partition (text : List Char) :
    (Scanner.ofText text).Yields (scan text) ∧ Partition text (scan text) ∧
      ∀ moves scanner, (Scanner.ofText text).moves? moves = some scanner →
        scanner.cursor ≤ text.length ∧
          (∀ move after, scanner.move? move = some after →
            scanner.cursor ≤ after.cursor ∧ after.cursor ≤ text.length) ∧
          ((scanner.next.1 = none ∧ scanner.next.2.cursor = text.length) ∨
            (scanner.next.1.isSome = true ∧ scanner.cursor < scanner.next.2.cursor)) := by
  refine ⟨(Scanner.ofText text).yields_spans, partition_scan text, ?_⟩
  intro moves scanner hMoves
  have hOver : scanner.Over text := (Scanner.over_ofText text).moves? hMoves
  refine ⟨hOver.cursor_le, fun move after hMove => ?_, ?_⟩
  · obtain ⟨hAfter, hForward⟩ := hOver.move? hMove
    exact ⟨hForward, hAfter.cursor_le⟩
  · rcases hOver.next.2 with ⟨hNone, -, hEnd⟩ | hFound
    · exact .inl ⟨hNone, hEnd⟩
    · exact .inr hFound

/-- Here the cursor has come out of the middle of a string, in front of a backslash at the end. -/
theorem scan_partition_of_moves :
    let text := ['(', '"', 'a', '\\', ';', '"', ' ', 'b', '\\']
    ∃ scanner, (Scanner.ofText text).moves? [.next, .skipString, .skipLine, .next, .skipBlanks] =
        some scanner ∧
      scanner.cursor ≤ text.length ∧
      (∀ move after, scanner.move? move = some after →
        scanner.cursor ≤ after.cursor ∧ after.cursor ≤ text.length) ∧
      ((scanner.next.1 = none ∧ scanner.next.2.cursor = text.length) ∨
        (scanner.next.1.isSome = true ∧ scanner.cursor < scanner.next.2.cursor)) := by
  intro text
  obtain ⟨scanner, hMoves⟩ : ∃ scanner, (Scanner.ofText text).moves?
      [.next, .skipString, .skipLine, .next, .skipBlanks] = some scanner := ⟨_, rfl⟩
  exact ⟨scanner, hMoves, (scan_partition text).2.2 _ _ hMoves⟩

end LispReader
