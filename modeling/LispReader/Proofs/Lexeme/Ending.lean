import LispReader.Proofs.Lexeme.Joined
import LispReader.Proofs.Reader.Run

/-!
Where strings and comments end. The scanner decides it when it takes a text apart, and the rules
decide it once more when they give a lexeme its meaning. On strings they agree: a string of a text
has nothing behind its closing quote, and lacks that quote only where the text ends. On comments
they do not. The scanner ends a comment at a line feed or a carriage return alone, so another line
break may stand in it, and the meaning leaves out whatever comes from there on.
-/

namespace LispReader

open Lexeme Text

namespace Lexeme

/-- The characters that stand behind backslashes in what follows an opening quote, up to the closing
one. -/
def escapes : List Char → List Char
  | [] => []
  | '"' :: _ => []
  | ['\\'] => []
  | '\\' :: c :: rest => c :: escapes rest
  | _ :: rest => escapes rest

/-- The characters that a backslash gives a meaning to. -/
def knownEscapes : List Char :=
  ['\\', '"', '\'', 'n', 'r', 't']

theorem mem_knownEscapes_iff {c : Char} : c ∈ knownEscapes ↔ ∃ d, unescape? c = some d := by
  constructor
  · intro h
    simp only [knownEscapes, List.mem_cons, List.not_mem_nil, or_false] at h
    rcases h with rfl | rfl | rfl | rfl | rfl | rfl <;> exact ⟨_, rfl⟩
  · rintro ⟨d, hEscape⟩
    unfold unescape? at hEscape
    split at hEscape <;> first | decide | cases hEscape

theorem escapes_cons {c : Char} (h : c ≠ '\\') (hQuote : c ≠ '"') (rest : List Char) :
    escapes (c :: rest) = escapes rest := by
  rw [escapes.eq_def]
  split <;> simp_all

/-- What may come of a string literal, by its closing quote and its escapes. -/
inductive StringOutcome (tail : List Char) : Except StringFlaw (List Char) → Prop where
  | ok {chars : List Char} (closed : closesString tail = true)
      (known : ∀ c ∈ escapes tail, c ∈ knownEscapes) : StringOutcome tail (.ok chars)
  | unterminated (opened : closesString tail = false) :
      StringOutcome tail (.error .unterminated)
  | unknownEscape {c : Char} (mem : c ∈ escapes tail) (unknown : c ∉ knownEscapes) :
      StringOutcome tail (.error (.unknownEscape c))

/-- What stands in front of a string literal makes no difference to what may come of it, if it adds
nothing but escapes with a meaning. -/
theorem StringOutcome.map {tail text : List Char} {decoded : Except StringFlaw (List Char)}
    (h : StringOutcome tail decoded) (hCloses : closesString text = closesString tail)
    (hMem : ∀ c ∈ escapes tail, c ∈ escapes text)
    (hKnown : ∀ c ∈ escapes text, c ∈ knownEscapes ∨ c ∈ escapes tail)
    (f : List Char → List Char) : StringOutcome text (f <$> decoded) := by
  cases h with
  | ok closed known =>
      refine .ok (hCloses.trans closed) fun c hc => ?_
      exact (hKnown c hc).elim id (known c)
  | unterminated opened => exact .unterminated (hCloses.trans opened)
  | unknownEscape mem unknown => exact .unknownEscape (hMem _ mem) unknown

/-- A string literal that the scanner takes whole has nothing behind its closing quote, so all that
can be wrong with it is an escape without a meaning or the lack of that quote. -/
theorem stringOutcome_decodeString {tail : List Char}
    (hWhole : stringTailLength tail = tail.length) :
    StringOutcome tail (decodeString tail) := by
  induction tail using escape_induction with
  | nil | lone => exact .unterminated rfl
  | pair c rest ih =>
      have hEscapes : escapes ('\\' :: c :: rest) = c :: escapes rest := rfl
      rw [stringTailLength_pair] at hWhole
      rw [decodeString_pair]
      cases hEscape : unescape? c with
      | none =>
          refine .unknownEscape List.mem_cons_self fun hKnown => ?_
          obtain ⟨d, hMeaning⟩ := mem_knownEscapes_iff.mp hKnown
          cases hEscape.symm.trans hMeaning
      | some d =>
          have hKnown : c ∈ knownEscapes := mem_knownEscapes_iff.mpr ⟨d, hEscape⟩
          refine (ih (by simpa using hWhole)).map (closesString_pair c rest) ?_ ?_ _
          · exact fun e he => List.mem_cons_of_mem c he
          · intro e he
            rcases List.mem_cons.mp (hEscapes ▸ he) with rfl | he
            · exact .inl hKnown
            · exact .inr he
  | other c rest hBackslash ih =>
      by_cases hQuote : c = '"'
      · subst hQuote
        -- the scanner stops behind the closing quote, so nothing is left of the lexeme
        have hOne : stringTailLength ('"' :: rest) = 1 := rfl
        obtain rfl : rest = [] := by simpa [hOne] using hWhole
        exact .ok rfl (List.forall_mem_nil _)
      · rw [stringTailLength_cons hBackslash hQuote] at hWhole
        have hEscapes := escapes_cons hBackslash hQuote rest
        rw [decodeString_cons hBackslash hQuote]
        refine (ih (by simpa using hWhole)).map (closesString_cons hBackslash hQuote rest) ?_ ?_ _
        · simp [hEscapes]
        · exact fun e he => .inr (hEscapes ▸ he)

end Lexeme

theorem Span.classify_of_error {fault : LexemeFault} (span : Span)
    (h : Lexeme.classify span.chars = .error fault) :
    span.classify = .error (.lexeme fault (some span.position)) := by
  rw [Span.classify, h]

/-- A lexeme of a text is cut off where its kind ends, and is whole when it stands alone. -/
theorem exists_of_mem_scan {text : List Char} {span : Span} (h : span ∈ scan text) :
    ∃ c rest, isBlank c = false ∧ span.chars = (c :: rest).take (lexemeLength (c :: rest)) ∧
      lexemeLength span.chars = span.chars.length ∧
      (span.stop < text.length → lexemeLength (c :: rest) < (c :: rest).length) := by
  rw [scan_eq_map] at h
  obtain ⟨placed, hPlaced, rfl⟩ := List.mem_map.mp h
  obtain ⟨c, rest, hDrop, hBlank, hChars⟩ := exists_of_mem_placedFrom hPlaced
  have hLength := length_take_lexemeLength (c :: rest)
  refine ⟨c, rest, hBlank, ?_, ?_, fun hInside => ?_⟩
  · rw [(foundIn_of_mem_placedFrom hPlaced).chars_span, hChars]
  · rw [(foundIn_of_mem_placedFrom hPlaced).chars_span, hChars, lexemeLength_take hBlank, hLength]
  · rw [← hDrop, List.length_drop, hDrop, ← hLength, ← hChars]
    simp only [Placed.span] at hInside
    omega

/-- On a string of a text the scanner and the rules agree. The string has a meaning if it has its
closing quote and every backslash in it has a meaning. A string that is at fault lacks that quote,
which happens at the end of the text alone, or has a backslash without a meaning; none has
characters behind the closing quote. -/
theorem classify_string_of_scan {text : List Char} {span : Span} (hSpan : span ∈ scan text)
    {tail : List Char} (hString : span.chars = '"' :: tail) :
    (closesString tail = true → (∀ c ∈ escapes tail, c ∈ knownEscapes) →
      ∃ value, span.classify = .ok (.string (.text value))) ∧
    (∀ lexeme position,
      span.classify ≠ .error (.lexeme (.afterString lexeme) position)) ∧
    (∀ lexeme position,
      span.classify = .error (.lexeme (.unterminatedString lexeme) position) →
        closesString tail = false ∧ span.stop = text.length) ∧
    ∀ error, span.classify = .error error →
      error = .lexeme (.unterminatedString span.text) (some span.position) ∨
        ∃ c ∈ escapes tail, c ∉ knownEscapes ∧
          error = .lexeme (.unknownEscape c span.text) (some span.position) := by
  obtain ⟨c, rest, hBlank, hChars, hAlone, hInside⟩ := exists_of_mem_scan hSpan
  have hStop : span.stop ≤ text.length := ((partition_scan text).inside span hSpan).2.2.2
  have hWhole : stringTailLength tail = tail.length := by
    rw [hString, lexemeLength_string] at hAlone
    simpa using hAlone
  have hEnd : closesString tail = false → span.stop = text.length := by
    intro hOpen
    by_contra hBefore
    have hClosed := isOpen_take_lexemeLength hBlank (hInside (by omega))
    rw [← hChars, hString, isOpen_string, hOpen] at hClosed
    cases hClosed
  have hOutcome := stringOutcome_decodeString hWhole
  have hMeaning := classify_string_eq tail
  rw [← hString] at hMeaning
  generalize decodeString tail = decoded at hOutcome hMeaning
  cases hOutcome with
  | ok closed known =>
      have hClassify := Span.classify_eq_ok_iff.mpr hMeaning
      exact ⟨fun _ _ => ⟨_, hClassify⟩, by simp [hClassify], by simp [hClassify],
        by simp [hClassify]⟩
  | unterminated opened =>
      have hClassify := span.classify_of_error hMeaning
      refine ⟨fun hClosed => ?_, by simp [hClassify, StringFlaw.fault],
        fun _ _ _ => ⟨opened, hEnd opened⟩, fun error hError => .inl ?_⟩
      · rw [opened] at hClosed
        cases hClosed
      · exact Except.error.inj (hError.symm.trans hClassify)
  | @unknownEscape c mem unknown =>
      have hClassify := span.classify_of_error hMeaning
      refine ⟨fun _ hKnown => absurd (hKnown c mem) unknown, by simp [hClassify, StringFlaw.fault],
        by simp [hClassify, StringFlaw.fault], fun error hError => .inr ⟨c, mem, unknown, ?_⟩⟩
      exact Except.error.inj (hError.symm.trans hClassify)

/-- Here the string is closed behind a backslash and a quote that do not close it. -/
theorem classify_string_of_scan_escaped :
    let text := ['(', '"', '\\', '"', '\\', '\\', '"', '"', '\\']
    let span : Span := ⟨1, 7, text⟩
    span ∈ scan text ∧ span.chars = '"' :: ['\\', '"', '\\', '\\', '"'] ∧
      ∃ value, span.classify = .ok (.string (.text value)) := by
  intro text span
  have hSpan : span ∈ scan text := by decide +kernel
  have hChars : span.chars = '"' :: ['\\', '"', '\\', '\\', '"'] := by decide
  exact ⟨hSpan, hChars, (classify_string_of_scan hSpan hChars).1 rfl
    (by simp [escapes, knownEscapes])⟩

namespace Lexeme

/-- A comment taken apart: all the semicolons in front, the words that its meaning keeps, and what
is lost of it from the first line break on. -/
structure CommentParts (lexeme : List Char) (depth : Nat) (words lost : List Char) : Prop where
  whole : lexeme = List.replicate depth ';' ++ words ++ lost
  depth_all : (words ++ lost).head? ≠ some ';'
  words_line : ∀ c ∈ words, isLineBreak c = false
  lost_break : ∀ c ∈ lost.head?, isLineBreak c = true

/-- Nothing is lost of a comment if there is no line break in it, and only then. -/
theorem CommentParts.lost_eq_nil_iff {lexeme : List Char} {depth : Nat} {words lost : List Char}
    (h : CommentParts lexeme depth words lost) :
    lost = [] ↔ ∀ c ∈ lexeme, isLineBreak c = false := by
  constructor
  · rintro rfl c hc
    rw [h.whole, List.append_nil] at hc
    rcases List.mem_append.mp hc with hMark | hWord
    · rw [List.eq_of_mem_replicate hMark]
      rfl
    · exact h.words_line c hWord
  · intro hLine
    cases lost with
    | nil => rfl
    | cons c lost =>
        have hBreak := h.lost_break c rfl
        rw [hLine c (by simp [h.whole])] at hBreak
        cases hBreak

theorem exists_classify_comment (rest : List Char) :
    ∃ (depth : Nat) (words lost : List Char), CommentParts (';' :: rest) depth words lost ∧
      classify (';' :: rest) = .ok (.comment (.int depth) (.text (String.ofList words))) := by
  let marks := (';' :: rest).takeWhile fun c => c == ';'
  let behind := (';' :: rest).drop marks.length
  have hMarks : marks = List.replicate marks.length ';' :=
    List.eq_replicate_iff.mpr ⟨rfl, fun c hc => by simpa using List.mem_takeWhile_imp hc⟩
  have hWhole : marks ++ behind = ';' :: rest :=
    (List.prefix_iff_eq_append.mp (List.takeWhile_prefix _)).symm ▸ rfl
  have hBehind : behind = (';' :: rest).dropWhile fun c => c == ';' :=
    List.append_cancel_left (hWhole.trans List.takeWhile_append_dropWhile.symm)
  have hFirst : firstLine behind ++ behind.dropWhile (fun c => !isLineBreak c) = behind :=
    List.takeWhile_append_dropWhile
  refine ⟨marks.length, firstLine behind, behind.dropWhile fun c => !isLineBreak c, ?_, rfl⟩
  constructor
  case whole =>
    rw [List.append_assoc, hFirst, ← hMarks, hWhole]
  case depth_all =>
    rw [hFirst, hBehind]
    intro hHead
    have hMark := List.head?_dropWhile_not (fun c => c == ';') (';' :: rest)
    rw [hHead] at hMark
    cases hMark
  case words_line =>
    intro c hc
    simpa using List.mem_takeWhile_imp hc
  case lost_break =>
    intro c hc
    have hBreak := List.head?_dropWhile_not (fun c => !isLineBreak c) behind
    rw [hc] at hBreak
    simpa using hBreak

end Lexeme

/-- A comment of a text means the number of semicolons in front of it and the words behind them, up
to the first line break. There is no line feed and no carriage return in it, but there may be
another line break, and then the words are not all of it. -/
theorem classify_comment_of_scan {text : List Char} {span : Span} (hSpan : span ∈ scan text)
    {rest : List Char} (hComment : span.chars = ';' :: rest) :
    ∃ (depth : Nat) (words lost : List Char), CommentParts span.chars depth words lost ∧
      span.classify = .ok (.comment (.int depth) (.text (String.ofList words))) ∧
      (∀ c ∈ span.chars, c ≠ '\n' ∧ c ≠ '\r') ∧
      (lost = [] ↔ ∀ c ∈ span.chars, isLineBreak c = false) := by
  obtain ⟨depth, words, lost, hParts, hClassify⟩ := exists_classify_comment rest
  rw [← hComment] at hParts hClassify
  refine ⟨depth, words, lost, hParts, Span.classify_eq_ok_iff.mpr hClassify, ?_,
    hParts.lost_eq_nil_iff⟩
  obtain ⟨-, -, -, -, hAlone, -⟩ := exists_of_mem_scan hSpan
  have hLine : span.chars = span.chars.takeWhile fun c => c != '\r' && c != '\n' := by
    have hTake := take_lexemeLength_comment rest
    rwa [← hComment, hAlone, List.take_length] at hTake
  rw [hLine]
  intro c hc
  simpa [and_comm] using List.mem_takeWhile_imp hc

/-- Here a form feed stands in the comment, and what comes behind it is lost. -/
theorem classify_comment_of_scan_formFeed :
    let text := ['a', ' ', ';', ';', ' ', 'b', '\x0c', 'c', '\n']
    let span : Span := ⟨2, 8, text⟩
    span ∈ scan text ∧ span.chars = ';' :: [';', ' ', 'b', '\x0c', 'c'] ∧
      ∃ (depth : Nat) (words lost : List Char), CommentParts span.chars depth words lost ∧
        span.classify = .ok (.comment (.int depth) (.text (String.ofList words))) ∧
        (∀ c ∈ span.chars, c ≠ '\n' ∧ c ≠ '\r') ∧
        (lost = [] ↔ ∀ c ∈ span.chars, isLineBreak c = false) := by
  intro text span
  have hSpan : span ∈ scan text := by decide +kernel
  have hChars : span.chars = ';' :: [';', ' ', 'b', '\x0c', 'c'] := by decide
  exact ⟨hSpan, hChars, classify_comment_of_scan hSpan hChars⟩

/-- The meaning of a comment does not always keep every character of it. The comment here holds a
vertical tab. -/
theorem not_forall_comment_kept :
    ¬ ∀ (text : List Char), ∀ span ∈ scan text, ∀ rest, span.chars = ';' :: rest →
      ∃ (depth : Nat) (words : List Char),
        span.classify = .ok (.comment (.int depth) (.text (String.ofList words))) ∧
          List.replicate depth ';' ++ words = span.chars := by
  intro h
  let text := [';', 'a', '\x0b', 'b']
  let span : Span := ⟨0, 4, text⟩
  have hSpan : span ∈ scan text := by decide +kernel
  have hChars : span.chars = ';' :: ['a', '\x0b', 'b'] := by decide
  have hMeaning : span.classify = .ok (.comment (.int 1) (.text (String.ofList ['a']))) := rfl
  obtain ⟨depth, words, hClassify, hKept⟩ := h text span hSpan _ hChars
  rw [hMeaning] at hClassify
  injection hClassify with hClassify
  injection hClassify with hDepth hWords
  obtain rfl : ['a'] = words := String.ofList_injective (Value.text.inj hWords)
  have hLength := congrArg List.length hKept
  rw [hChars, List.length_append, List.length_replicate] at hLength
  have hOne : (1 : Int) = depth := by simpa using hDepth
  simp only [List.length_cons, List.length_nil] at hLength
  omega

end LispReader
