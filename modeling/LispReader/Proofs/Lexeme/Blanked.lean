import Mathlib.Data.List.TakeWhile
import LispReader.Proofs.Lexeme.Open
import LispReader.Proofs.Lexeme.Partition

/-!
A text with its comments blanked out. A comment ends in front of a line end or with the text, so a
blank in its place ends what stands in front of it and begins nothing, and all other lexemes stay
where they are. The line ends stay too, and with them the position of every offset.
-/

namespace LispReader

open Lexeme Text

/-- Whether a span holds a comment. -/
def Span.isComment (span : Span) : Bool :=
  span.chars.head? == some ';'

/-- A text with every comment in it replaced by as many spaces. -/
def blankComments (text : List Char) : List Char :=
  text.mapIdx fun place c =>
    if ∃ span ∈ scan text, span.isComment = true ∧ span.Covers place then ' ' else c

namespace Lexeme

/-- Whether a lexeme is a comment. -/
def Placed.isComment (lexeme : Placed) : Bool :=
  lexeme.chars.head? == some ';'

/-- One of the lexemes is a comment that lies at a place. -/
def CommentAt (lexemes : List Placed) (place : Nat) : Prop :=
  ∃ lexeme ∈ lexemes, lexeme.isComment = true ∧ lexeme.start ≤ place ∧
    place < lexeme.start + lexeme.chars.length

instance (lexemes : List Placed) (place : Nat) : Decidable (CommentAt lexemes place) :=
  inferInstanceAs (Decidable (∃ lexeme ∈ lexemes, _))

/-- A text that begins at an offset, with every comment in it replaced by as many spaces. -/
def blankFrom (offset : Nat) (text : List Char) : List Char :=
  text.mapIdx fun place c =>
    if CommentAt (placedFrom offset text) (offset + place) then ' ' else c

/-- A comment is replaced by as many spaces, and any other lexeme is kept. -/
def blankLexeme (lexeme : Placed) : List Char :=
  if lexeme.isComment then List.replicate lexeme.chars.length ' ' else lexeme.chars

theorem not_commentAt_of_lt {offset place : Nat} (h : place < offset) (text : List Char) :
    ¬ CommentAt (placedFrom offset text) place := by
  rintro ⟨lexeme, hLexeme, -, hStart, -⟩
  have hBehind := (mem_placedFrom hLexeme).1
  omega

theorem blankFrom_blank {c : Char} (h : isBlank c = true) (offset : Nat) (rest : List Char) :
    blankFrom offset (c :: rest) = c :: blankFrom (offset + 1) rest := by
  have hFirst : ¬ CommentAt (placedFrom (offset + 1) rest) (offset + 0) :=
    not_commentAt_of_lt (Nat.lt_succ_self offset) rest
  rw [blankFrom, placedFrom_blank h, List.mapIdx_cons, if_neg hFirst, blankFrom]
  simp only [Nat.add_assoc, Nat.add_comm 1]

/-- Whether there is a comment at a place is decided by the lexeme at it. -/
theorem commentAt_cons_iff {first : Placed} {others : List Placed} {place : Nat} :
    CommentAt (first :: others) place ↔
      (first.isComment = true ∧ first.start ≤ place ∧ place < first.start + first.chars.length) ∨
        CommentAt others place := by
  simp [CommentAt]

theorem mapIdx_blankLexeme {first : Placed} {others : List Placed}
    (hOthers : ∀ place < first.start + first.chars.length, ¬ CommentAt others place) :
    (first.chars.mapIdx fun place c =>
      if CommentAt (first :: others) (first.start + place) then ' ' else c) =
      blankLexeme first := by
  have hPlace : ∀ place < first.chars.length,
      (CommentAt (first :: others) (first.start + place) ↔ first.isComment = true) := by
    intro place hLt
    have hBefore := hOthers (first.start + place) (Nat.add_lt_add_left hLt _)
    rw [commentAt_cons_iff, or_iff_left hBefore, and_iff_left]
    exact ⟨Nat.le_add_right _ _, Nat.add_lt_add_left hLt _⟩
  unfold blankLexeme
  cases hComment : first.isComment with
  | true =>
      refine List.ext_getElem (by simp) fun place hLeft hRight => ?_
      have hLt : place < first.chars.length := by simpa using hRight
      simp [(hPlace place hLt).mpr hComment]
  | false =>
      refine List.ext_getElem (by simp) fun place hLeft hRight => ?_
      have hNot : ¬ CommentAt (first :: others) (first.start + place) := by
        rw [hPlace place hRight, hComment]
        exact Bool.false_ne_true
      simp [hNot]

theorem blankFrom_lexeme {c : Char} (h : isBlank c = false) (offset : Nat) (rest : List Char) :
    blankFrom offset (c :: rest) =
      blankLexeme ⟨offset, (c :: rest).take (lexemeLength (c :: rest))⟩ ++
        blankFrom (offset + lexemeLength (c :: rest))
          ((c :: rest).drop (lexemeLength (c :: rest))) := by
  have hLength := length_take_lexemeLength (c :: rest)
  rw [blankFrom, placedFrom_lexeme h]
  generalize lexemeLength (c :: rest) = length at hLength ⊢
  generalize c :: rest = text at hLength ⊢
  let first : Placed := ⟨offset, text.take length⟩
  let others := placedFrom (offset + length) (text.drop length)
  let f (place : Nat) (c : Char) := if CommentAt (first :: others) (offset + place) then ' ' else c
  have hFirst : (text.take length).mapIdx f = blankLexeme first := by
    refine mapIdx_blankLexeme fun place hPlace => not_commentAt_of_lt ?_ _
    rwa [hLength] at hPlace
  have hOthers : (text.drop length).mapIdx (fun place => f (place + length)) =
      blankFrom (offset + length) (text.drop length) := by
    refine List.mapIdx_eq_mapIdx_iff.mpr fun place hPlace => ?_
    have hBehind : ¬ offset + length + place < offset + (text.take length).length := by omega
    have hIff : CommentAt (first :: others) (offset + (place + length)) ↔
        CommentAt others (offset + length + place) := by
      rw [commentAt_cons_iff, Nat.add_comm place, ← Nat.add_assoc]
      exact or_iff_right fun hFirst => hBehind hFirst.2.2
    simp only [f, hIff, others]
  calc
    text.mapIdx f = (text.take length ++ text.drop length).mapIdx f := by
      rw [List.take_append_drop]
    _ = (text.take length).mapIdx f ++
        (text.drop length).mapIdx (fun place => f (place + length)) := by
      rw [List.mapIdx_append, hLength]
    _ = blankLexeme first ++ blankFrom (offset + length) (text.drop length) := by
      rw [hFirst, hOthers]

end Lexeme

theorem blankComments_eq_blankFrom (text : List Char) : blankComments text = blankFrom 0 text := by
  have hPlace : ∀ place, (∃ span ∈ scan text, span.isComment = true ∧ span.Covers place) ↔
      CommentAt (placedFrom 0 text) (0 + place) := by
    intro place
    rw [scan_eq_map, Nat.zero_add]
    constructor
    · rintro ⟨span, hSpan, hComment, hCovers⟩
      obtain ⟨lexeme, hLexeme, rfl⟩ := List.mem_map.mp hSpan
      rw [Span.isComment, (foundIn_of_mem_placedFrom hLexeme).chars_span] at hComment
      exact ⟨lexeme, hLexeme, hComment, Placed.covers_span_iff.mp hCovers⟩
    · rintro ⟨lexeme, hLexeme, hComment, hCovers⟩
      refine ⟨_, List.mem_map_of_mem hLexeme, ?_, Placed.covers_span_iff.mpr hCovers⟩
      rwa [Span.isComment, (foundIn_of_mem_placedFrom hLexeme).chars_span]
  unfold blankComments blankFrom
  simp only [hPlace]

namespace Lexeme

/-- An atom goes as far in front of anything else that stops it. -/
theorem atomLength_take_append {text behind : List Char} (hStops : StopsAtom behind)
    (h : endsInBackslash (text.take (atomLength text)) = false) :
    atomLength (text.take (atomLength text) ++ behind) = atomLength text := by
  induction text using escape_induction with
  | nil => exact atomLength_of_stopsAtom hStops
  | lone => cases h
  | pair c text ih =>
      rw [atomLength_pair, List.take_succ_cons, List.take_succ_cons] at h ⊢
      rw [endsInBackslash_pair] at h
      rw [List.cons_append, List.cons_append, atomLength_pair, ih h]
  | other c text hBackslash ih =>
      rw [atomLength_cons hBackslash] at h ⊢
      split
      · exact atomLength_of_stopsAtom hStops
      · next hEnds =>
          rw [if_neg hEnds, List.take_succ_cons, endsInBackslash_cons hBackslash] at h
          rw [List.take_succ_cons, List.cons_append, atomLength_cons hBackslash, if_neg hEnds, ih h]

/-- A string that has its closing quote goes as far in front of anything else. -/
theorem stringTailLength_take_append {text : List Char} (behind : List Char)
    (h : closesString (text.take (stringTailLength text)) = true) :
    stringTailLength (text.take (stringTailLength text) ++ behind) = stringTailLength text := by
  induction text using escape_induction with
  | nil | lone => cases h
  | pair c text ih =>
      rw [stringTailLength_pair, List.take_succ_cons, List.take_succ_cons] at h ⊢
      rw [closesString_pair] at h
      rw [List.cons_append, List.cons_append, stringTailLength_pair, ih h]
  | other c text hBackslash ih =>
      by_cases hQuote : c = '"'
      · rw [hQuote]
        rfl
      · rw [stringTailLength_cons hBackslash hQuote, List.take_succ_cons] at h ⊢
        rw [closesString_cons hBackslash hQuote] at h
        rw [List.cons_append, stringTailLength_cons hBackslash hQuote, ih h]

/-- What stops an atom inside of its text ends atoms. -/
theorem stopsAtom_drop_atomLength (text : List Char) :
    StopsAtom (text.drop (atomLength text)) := by
  induction text using escape_induction with
  | nil | lone =>
      intro c hc
      cases hc
  | pair c text ih => exact ih
  | other c text hBackslash ih =>
      rw [atomLength_cons hBackslash]
      split
      · next hEnds => simpa [StopsAtom] using hEnds
      · exact ih

/-- A lexeme that is no comment goes as far in front of anything else: an atom in front of what ends
atoms, and a lexeme at the end of a text in front of nothing. -/
theorem lexemeLength_take_append {c : Char} {rest behind : List Char}
    (hBlank : isBlank c = false) (hComment : c ≠ ';')
    (hEnd : (c :: rest).length ≤ lexemeLength (c :: rest) → behind = [])
    (hStops : isAtom (c :: rest) = true → StopsAtom behind) :
    lexemeLength ((c :: rest).take (lexemeLength (c :: rest)) ++ behind) =
      lexemeLength (c :: rest) := by
  rcases Nat.lt_or_ge (lexemeLength (c :: rest)) (c :: rest).length with hLt | hGe
  · have hPos : 0 < lexemeLength (c :: rest) := lexemeLength_pos hBlank
    rcases lexeme_cases c rest with hMark | ⟨tail, rfl, rfl⟩ | rfl | rfl | hAtom
    · rw [lexemeLength_mark hMark, List.take_succ_cons, List.cons_append, lexemeLength_mark hMark]
    · rfl
    · rw [lexemeLength_string, List.length_cons] at hLt
      have hClosed := closesString_take_stringTailLength (Nat.lt_of_succ_lt_succ hLt)
      rw [lexemeLength_string, List.take_succ_cons, List.cons_append, lexemeLength_string,
        stringTailLength_take_append behind hClosed]
    · exact absurd rfl hComment
    · have hTake : isAtom ((c :: rest).take (lexemeLength (c :: rest)) ++ behind) = true :=
        isAtom_append (isAtom_take hAtom hPos) (hStops hAtom)
      rw [lexemeLength_of_isAtom hTake]
      rw [lexemeLength_of_isAtom hAtom] at hLt ⊢
      exact atomLength_take_append (hStops hAtom) (endsInBackslash_take_atomLength hLt)
  · rw [hEnd hGe, List.append_nil, List.take_of_length_le hGe]

/-- A lexeme begins with the first character of its text. -/
theorem take_lexemeLength_eq_cons {c : Char} (h : isBlank c = false) (rest : List Char) :
    (c :: rest).take (lexemeLength (c :: rest)) =
      c :: rest.take (lexemeLength (c :: rest) - 1) := by
  have hPos : 0 < lexemeLength (c :: rest) := lexemeLength_pos h
  obtain ⟨count, hCount⟩ := Nat.exists_eq_add_of_lt hPos
  rw [hCount, Nat.zero_add, List.take_succ_cons, Nat.add_sub_cancel]

theorem isComment_take_lexemeLength {c : Char} (h : isBlank c = false) (offset : Nat)
    (rest : List Char) :
    (⟨offset, (c :: rest).take (lexemeLength (c :: rest))⟩ : Placed).isComment = (c == ';') := by
  rw [Placed.isComment, take_lexemeLength_eq_cons h]
  rfl

/-- Blanking out comments leaves a text that stops an atom one that does. -/
theorem stopsAtom_blankFrom {text : List Char} (h : StopsAtom text) (offset : Nat) :
    StopsAtom (blankFrom offset text) := by
  cases text with
  | nil => exact h
  | cons c rest =>
      have hEnds : endsAtom c = true := h c rfl
      cases hBlank : isBlank c with
      | true =>
          rw [blankFrom_blank hBlank]
          exact h
      | false =>
          have hComment : (c == ';') = false := by
            refine beq_eq_false_iff_ne.mpr ?_
            rintro rfl
            cases hEnds
          rw [blankFrom_lexeme hBlank, blankLexeme, isComment_take_lexemeLength hBlank, hComment,
            take_lexemeLength_eq_cons hBlank]
          exact h

theorem placedFrom_replicate_append (offset count : Nat) (text : List Char) :
    placedFrom offset (List.replicate count ' ' ++ text) = placedFrom (offset + count) text := by
  induction count generalizing offset with
  | zero => rfl
  | succ count ih =>
      rw [List.replicate_succ, List.cons_append, placedFrom_blank rfl, ih, Nat.add_assoc,
        Nat.add_comm 1]

/-- Blanking out comments takes them from the lexemes and leaves the others. -/
theorem placedFrom_blankFrom (offset : Nat) (text : List Char) :
    placedFrom offset (blankFrom offset text) =
      (placedFrom offset text).filter fun lexeme => !lexeme.isComment := by
  fun_induction placedFrom offset text with
  | case1 => exact placedFrom_nil _
  | case2 offset c rest hBlank ih =>
      rw [blankFrom_blank hBlank, placedFrom_blank hBlank, ih]
  | case3 offset c rest hBlank length ih =>
      have hBlank' : isBlank c = false := by simpa using hBlank
      have hLength : ((c :: rest).take length).length = length := length_take_lexemeLength _
      have hFirst := isComment_take_lexemeLength hBlank' offset rest
      rw [blankFrom_lexeme hBlank', List.filter_cons, hFirst, ← ih, blankLexeme, hFirst]
      generalize hBehind : blankFrom (offset + length) ((c :: rest).drop length) = behind
      by_cases hComment : c = ';'
      · have hDropped : (!(c == ';')) = false := by simp [hComment]
        rw [hDropped, if_neg Bool.false_ne_true, if_pos (by simp [hComment]), hLength,
          placedFrom_replicate_append]
      · have hSame : lexemeLength ((c :: rest).take length ++ behind) = length := by
          refine lexemeLength_take_append hBlank' hComment (fun hEnd => ?_) fun hAtom => ?_
          · rw [← hBehind, List.drop_of_length_le hEnd]
            rfl
          · rw [← hBehind, show length = atomLength (c :: rest) from lexemeLength_of_isAtom hAtom]
            exact stopsAtom_blankFrom (stopsAtom_drop_atomLength _) _
        have hKept : (!(c == ';')) = true := by simp [hComment]
        have hCons : (c :: rest).take length = c :: rest.take (length - 1) :=
          take_lexemeLength_eq_cons hBlank' rest
        rw [if_neg (by simp [hComment]), if_pos hKept]
        rw [hCons] at hSame hLength ⊢
        rw [List.cons_append] at hSame ⊢
        rw [placedFrom_lexeme hBlank', hSame, ← List.cons_append, List.take_left' hLength,
          List.drop_left' hLength]

/-- There is no line end in a comment. -/
theorem notMem_take_lexemeLength_comment (rest : List Char) :
    '\n' ∉ (';' :: rest).take (lexemeLength (';' :: rest)) := by
  rw [take_lexemeLength_comment]
  intro hMem
  have hEnd := List.mem_takeWhile_imp hMem
  cases hEnd

/-- Blanking out comments leaves the line ends where they are. -/
theorem map_isLineEnd_blankFrom (offset : Nat) (text : List Char) :
    (blankFrom offset text).map (· == '\n') = text.map (· == '\n') := by
  induction offset, text using placedFrom.induct with
  | case1 => rfl
  | case2 offset c rest hBlank ih =>
      rw [blankFrom_blank hBlank, List.map_cons, List.map_cons, ih]
  | case3 offset c rest hBlank length ih =>
      have hBlank' : isBlank c = false := by simpa using hBlank
      have hLexeme : (blankLexeme ⟨offset, (c :: rest).take length⟩).map (· == '\n') =
          ((c :: rest).take length).map (· == '\n') := by
        rw [blankLexeme, isComment_take_lexemeLength hBlank']
        split
        · next hComment =>
            obtain rfl : c = ';' := eq_of_beq hComment
            rw [List.map_replicate]
            refine (List.eq_replicate_iff.mpr ⟨List.length_map _, ?_⟩).symm
            intro isEnd hEnd
            obtain ⟨d, hd, rfl⟩ := List.mem_map.mp hEnd
            refine beq_eq_false_iff_ne.mpr ?_
            rintro rfl
            exact notMem_take_lexemeLength_comment rest hd
        · rfl
      rw [blankFrom_lexeme hBlank', List.map_append, hLexeme, ih, ← List.map_append,
        List.take_append_drop]

end Lexeme

/-- Of a text its line ends alone decide the position of an offset. -/
theorem Text.Position.ofOffset_congr {first second : List Char}
    (h : first.map (· == '\n') = second.map (· == '\n')) (offset : Int) :
    ofOffset first offset = ofOffset second offset := by
  have hLength : first.length = second.length := by
    simpa using congrArg List.length h
  have hClamp : clampOffset first offset = clampOffset second offset := by
    cases offset <;> simp [clampOffset, hLength]
  have hTake (count : Nat) :
      (first.take count).map (· == '\n') = (second.take count).map (· == '\n') := by
    rw [List.map_take, List.map_take, h]
  have hCount (text : List Char) : text.count '\n' = (text.map (· == '\n')).count true := by
    rw [List.count_eq_countP, List.count_eq_countP, List.countP_map]
    exact List.countP_congr fun c _ => by simp
  have hLine (text : List Char) :
      (lastLine text).length = ((text.map (· == '\n')).reverse.takeWhile (! ·)).length := by
    rw [← List.map_reverse, List.takeWhile_map, List.length_map, lastLine, List.length_reverse]
    rfl
  simp only [ofOffset, lineStart, hCount, hLine, hClamp, hTake, List.length_take, hLength]

namespace Lexeme

/-- Without its comments, a text has its lexemes left, at the same positions. -/
theorem scan_blankComments (text : List Char) :
    ∃ lexemes : List Placed,
      scan text = lexemes.map (Placed.span text) ∧
      scan (blankComments text) =
        (lexemes.filter fun lexeme => !lexeme.isComment).map (Placed.span (blankComments text)) ∧
      ∀ lexeme ∈ lexemes,
        (lexeme.span text).chars = lexeme.chars ∧
        (lexeme.isComment = false →
          (lexeme.span (blankComments text)).chars = lexeme.chars ∧
          (lexeme.span (blankComments text)).position = (lexeme.span text).position) := by
  have hBlanked : placedFrom 0 (blankComments text) =
      (placedFrom 0 text).filter fun lexeme => !lexeme.isComment := by
    rw [blankComments_eq_blankFrom, placedFrom_blankFrom]
  refine ⟨placedFrom 0 text, scan_eq_map text, by rw [scan_eq_map, hBlanked], ?_⟩
  intro lexeme hLexeme
  refine ⟨(foundIn_of_mem_placedFrom hLexeme).chars_span, fun hKept => ⟨?_, ?_⟩⟩
  · refine (foundIn_of_mem_placedFrom ?_).chars_span
    rw [hBlanked]
    exact List.mem_filter.mpr ⟨hLexeme, by simp [hKept]⟩
  · refine Position.ofOffset_congr ?_ _
    change (blankComments text).map _ = text.map _
    rw [blankComments_eq_blankFrom, map_isLineEnd_blankFrom]

end Lexeme

end LispReader
