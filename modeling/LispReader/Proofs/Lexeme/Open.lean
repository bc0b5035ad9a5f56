import LispReader.Proofs.Lexeme.Sequence

/-!
Open lexemes. A string without its closing quote and an atom that ends in a backslash without a
partner would take in whatever came behind them. No other lexeme would take in a line end, so a
text whose last lexeme is not open is taken apart in the same way when a line is put behind it.
-/

namespace LispReader.Lexeme

open LispReader.Text

/-- Whether a text ends in a backslash that no character follows, when every backslash is taken
together with the character after it. -/
def endsInBackslash : List Char → Bool
  | [] => false
  | ['\\'] => true
  | '\\' :: _ :: rest => endsInBackslash rest
  | _ :: rest => endsInBackslash rest

/-- Whether there is a closing quote in what follows the opening one. -/
def closesString : List Char → Bool
  | [] => false
  | '"' :: _ => true
  | ['\\'] => false
  | '\\' :: _ :: rest => closesString rest
  | _ :: rest => closesString rest

/-- Whether a lexeme is none of the other kinds. -/
def isAtom : List Char → Bool
  | [] => false
  | '#' :: '\'' :: _ => false
  | c :: _ => c != '(' && c != ')' && c != '\'' && c != '"' && c != ';'

/-- A string without its closing quote. -/
def isOpenString : List Char → Bool
  | '"' :: tail => !closesString tail
  | _ => false

/-- An atom that ends in a backslash without a partner. -/
def isOpenAtom (text : List Char) : Bool :=
  isAtom text && endsInBackslash text

/-- Whether a lexeme would take in a line end behind it. -/
def isOpen (text : List Char) : Bool :=
  isOpenString text || isOpenAtom text

/-- What follows an atom does not belong to it. -/
def StopsAtom (rest : List Char) : Prop :=
  ∀ c ∈ rest.head?, endsAtom c = true

/-- Induction on a text in which every backslash is taken together with the character after it. -/
@[elab_as_elim]
theorem escape_induction {motive : List Char → Prop} (nil : motive []) (lone : motive ['\\'])
    (pair : ∀ c rest, motive rest → motive ('\\' :: c :: rest))
    (other : ∀ c rest, c ≠ '\\' → motive rest → motive (c :: rest)) :
    ∀ text, motive text
  | [] => nil
  | [c] => if h : c = '\\' then h ▸ lone else other c [] h nil
  | c :: d :: rest =>
    if h : c = '\\' then h ▸ pair d rest (escape_induction nil lone pair other rest)
    else other c (d :: rest) h (escape_induction nil lone pair other (d :: rest))

section Equations

variable {c : Char}

theorem atomLength_pair (c : Char) (rest : List Char) :
    atomLength ('\\' :: c :: rest) = atomLength rest + 2 := rfl

theorem atomLength_cons (h : c ≠ '\\') (rest : List Char) :
    atomLength (c :: rest) = if endsAtom c then 0 else atomLength rest + 1 := by
  rw [atomLength.eq_def]
  split <;> simp_all

theorem endsInBackslash_pair (c : Char) (rest : List Char) :
    endsInBackslash ('\\' :: c :: rest) = endsInBackslash rest := rfl

theorem endsInBackslash_cons (h : c ≠ '\\') (rest : List Char) :
    endsInBackslash (c :: rest) = endsInBackslash rest := by
  rw [endsInBackslash.eq_def]
  split <;> simp_all

theorem stringTailLength_pair (c : Char) (rest : List Char) :
    stringTailLength ('\\' :: c :: rest) = stringTailLength rest + 2 := rfl

theorem stringTailLength_cons (h : c ≠ '\\') (hQuote : c ≠ '"') (rest : List Char) :
    stringTailLength (c :: rest) = stringTailLength rest + 1 := by
  rw [stringTailLength.eq_def]
  split <;> simp_all

theorem closesString_pair (c : Char) (rest : List Char) :
    closesString ('\\' :: c :: rest) = closesString rest := rfl

theorem closesString_cons (h : c ≠ '\\') (hQuote : c ≠ '"') (rest : List Char) :
    closesString (c :: rest) = closesString rest := by
  rw [closesString.eq_def]
  split <;> simp_all

end Equations

theorem ne_backslash_of_endsAtom {c : Char} (h : endsAtom c = true) : c ≠ '\\' := by
  rintro rfl
  cases h

theorem atomLength_of_stopsAtom {rest : List Char} (h : StopsAtom rest) : atomLength rest = 0 := by
  cases rest with
  | nil => rfl
  | cons c rest =>
      have hEnds : endsAtom c = true := h c rfl
      rw [atomLength_cons (ne_backslash_of_endsAtom hEnds), if_pos hEnds]

/-- An atom does not grow by what stops it, unless it ends in a backslash. -/
theorem atomLength_append {text rest : List Char} (hStops : StopsAtom rest)
    (h : endsInBackslash (text.take (atomLength text)) = false) :
    atomLength (text ++ rest) = atomLength text := by
  induction text using escape_induction with
  | nil => exact atomLength_of_stopsAtom hStops
  | lone => cases h
  | pair c text ih =>
      rw [atomLength_pair, List.take_succ_cons, List.take_succ_cons, endsInBackslash_pair] at h
      rw [List.cons_append, List.cons_append, atomLength_pair, atomLength_pair, ih h]
  | other c text hBackslash ih =>
      rw [List.cons_append, atomLength_cons hBackslash, atomLength_cons hBackslash]
      split
      · rfl
      · next hEnds =>
          rw [atomLength_cons hBackslash, if_neg hEnds, List.take_succ_cons,
            endsInBackslash_cons hBackslash] at h
          rw [ih h]

/-- An atom that stops inside of its text is not open. -/
theorem endsInBackslash_take_atomLength {text : List Char} (h : atomLength text < text.length) :
    endsInBackslash (text.take (atomLength text)) = false := by
  induction text using escape_induction with
  | nil => rfl
  | lone => exact absurd h (Nat.lt_irrefl 1)
  | pair c text ih =>
      rw [atomLength_pair] at h ⊢
      rw [List.take_succ_cons, List.take_succ_cons, endsInBackslash_pair]
      exact ih (by simpa using h)
  | other c text hBackslash ih =>
      rw [atomLength_cons hBackslash] at h ⊢
      split at h
      · next hEnds =>
          rw [if_pos hEnds]
          rfl
      · next hEnds =>
          rw [if_neg hEnds, List.take_succ_cons, endsInBackslash_cons hBackslash]
          exact ih (by simpa using h)

/-- A string that has its closing quote does not grow. -/
theorem stringTailLength_append {text : List Char} (rest : List Char)
    (h : closesString (text.take (stringTailLength text)) = true) :
    stringTailLength (text ++ rest) = stringTailLength text := by
  induction text using escape_induction with
  | nil | lone => cases h
  | pair c text ih =>
      rw [stringTailLength_pair, List.take_succ_cons, List.take_succ_cons, closesString_pair] at h
      rw [List.cons_append, List.cons_append, stringTailLength_pair, stringTailLength_pair, ih h]
  | other c text hBackslash ih =>
      by_cases hQuote : c = '"'
      · rw [hQuote]
        rfl
      · rw [stringTailLength_cons hBackslash hQuote, List.take_succ_cons,
          closesString_cons hBackslash hQuote] at h
        rw [List.cons_append, stringTailLength_cons hBackslash hQuote,
          stringTailLength_cons hBackslash hQuote, ih h]

/-- A string that stops inside of its text has its closing quote. -/
theorem closesString_take_stringTailLength {text : List Char}
    (h : stringTailLength text < text.length) :
    closesString (text.take (stringTailLength text)) = true := by
  induction text using escape_induction with
  | nil => exact absurd h (Nat.lt_irrefl 0)
  | lone => exact absurd h (Nat.lt_irrefl 1)
  | pair c text ih =>
      rw [stringTailLength_pair] at h ⊢
      rw [List.take_succ_cons, List.take_succ_cons, closesString_pair]
      exact ih (by simpa using h)
  | other c text hBackslash ih =>
      by_cases hQuote : c = '"'
      · rw [hQuote]
        rfl
      · rw [stringTailLength_cons hBackslash hQuote] at h ⊢
        rw [List.take_succ_cons, closesString_cons hBackslash hQuote]
        exact ih (by simpa using h)

theorem lineLength_append_newline (text rest : List Char) :
    lineLength (text ++ '\n' :: rest) = lineLength text := by
  unfold lineLength
  rw [List.takeWhile_append]
  split <;> simp_all

theorem isAtom_cons_eq_true_iff {c : Char} {rest : List Char} :
    isAtom (c :: rest) = true ↔
      (c = '#' → ∀ tail, rest ≠ '\'' :: tail) ∧
        c ≠ '(' ∧ c ≠ ')' ∧ c ≠ '\'' ∧ c ≠ '"' ∧ c ≠ ';' := by
  rw [isAtom.eq_def]
  split <;> grind

/-- Every lexeme is a mark of one character, the mark for a function, a string, a comment or an
atom. -/
theorem lexeme_cases (c : Char) (rest : List Char) :
    (c = '(' ∨ c = ')' ∨ c = '\'') ∨ (∃ tail, c = '#' ∧ rest = '\'' :: tail) ∨ c = '"' ∨ c = ';' ∨
      isAtom (c :: rest) = true := by
  rw [isAtom_cons_eq_true_iff]
  grind

theorem lexemeLength_mark {c : Char} (h : c = '(' ∨ c = ')' ∨ c = '\'') (rest : List Char) :
    lexemeLength (c :: rest) = 1 := by
  rcases h with rfl | rfl | rfl <;> rfl

theorem lexemeLength_string (rest : List Char) :
    lexemeLength ('"' :: rest) = stringTailLength rest + 1 := rfl

theorem lexemeLength_comment (rest : List Char) :
    lexemeLength (';' :: rest) = lineLength (';' :: rest) := rfl

/-- A comment is what stands in front of the first line end. -/
theorem take_lexemeLength_comment (rest : List Char) :
    (';' :: rest).take (lexemeLength (';' :: rest)) =
      (';' :: rest).takeWhile fun c => c != '\r' && c != '\n' :=
  (List.prefix_iff_eq_take.mp (List.takeWhile_prefix _)).symm

theorem lexemeLength_of_isAtom {text : List Char} (h : isAtom text = true) :
    lexemeLength text = atomLength text := by
  cases text with
  | nil => cases h
  | cons c rest =>
      rw [isAtom_cons_eq_true_iff] at h
      rw [lexemeLength.eq_def]
      split <;> simp_all

theorem isAtom_take {text : List Char} {count : Nat} (h : isAtom text = true) (hPos : 0 < count) :
    isAtom (text.take count) = true := by
  obtain ⟨count, rfl⟩ := Nat.exists_eq_add_of_lt hPos
  cases text with
  | nil => cases h
  | cons c rest =>
      rw [isAtom_cons_eq_true_iff] at h
      rw [Nat.zero_add, List.take_succ_cons, isAtom_cons_eq_true_iff]
      refine ⟨?_, h.2⟩
      intro hMark tail hTail
      cases count with
      | zero => simp at hTail
      | succ count =>
          cases rest with
          | nil => simp at hTail
          | cons d rest =>
              obtain ⟨rfl, -⟩ := List.cons.inj hTail
              exact h.1 hMark rest rfl

theorem isAtom_append {text rest : List Char} (h : isAtom text = true) (hStops : StopsAtom rest) :
    isAtom (text ++ rest) = true := by
  cases text with
  | nil => cases h
  | cons c text =>
      rw [isAtom_cons_eq_true_iff] at h
      rw [List.cons_append, isAtom_cons_eq_true_iff]
      refine ⟨?_, h.2⟩
      intro hMark tail hTail
      cases text with
      | nil =>
          have hEnds := hStops '\'' (by simp_all)
          cases hEnds
      | cons d text =>
          obtain ⟨rfl, -⟩ := List.cons.inj hTail
          exact h.1 hMark text rfl

theorem isOpen_of_isAtom {text : List Char} (h : isAtom text = true) :
    isOpen text = endsInBackslash text := by
  cases text with
  | nil => cases h
  | cons c rest =>
      have hString : isOpenString (c :: rest) = false := by
        rw [isAtom_cons_eq_true_iff] at h
        unfold isOpenString
        split <;> simp_all
      rw [isOpen, isOpenAtom, hString, h]
      rfl

theorem isOpen_string (rest : List Char) : isOpen ('"' :: rest) = !closesString rest := by
  rw [isOpen, isOpenAtom, isOpenString]
  simp [isAtom]

theorem stopsAtom_newline (rest : List Char) : StopsAtom ('\n' :: rest) := by
  intro c hc
  obtain rfl := Option.some.inj hc
  rfl

/-- A lexeme that is not open does not grow by a line behind it. -/
theorem lexemeLength_append_newline {c : Char} {rest : List Char} (hBlank : isBlank c = false)
    (h : isOpen ((c :: rest).take (lexemeLength (c :: rest))) = false) (line : List Char) :
    lexemeLength (c :: rest ++ '\n' :: line) = lexemeLength (c :: rest) := by
  have hPos : 0 < lexemeLength (c :: rest) := lexemeLength_pos hBlank
  rcases lexeme_cases c rest with hMark | ⟨tail, rfl, rfl⟩ | rfl | rfl | hAtom
  · rw [List.cons_append, lexemeLength_mark hMark, lexemeLength_mark hMark]
  · rfl
  · rw [lexemeLength_string, List.take_succ_cons, isOpen_string] at h
    rw [List.cons_append, lexemeLength_string, lexemeLength_string,
      stringTailLength_append _ (by simpa using h)]
  · rw [List.cons_append, lexemeLength_comment, lexemeLength_comment, ← List.cons_append,
      lineLength_append_newline]
  · have hStops : StopsAtom ('\n' :: line) := stopsAtom_newline line
    rw [isOpen_of_isAtom (isAtom_take hAtom hPos), lexemeLength_of_isAtom hAtom] at h
    rw [lexemeLength_of_isAtom (isAtom_append hAtom hStops), lexemeLength_of_isAtom hAtom,
      atomLength_append hStops h]

/-- A lexeme that stops inside of its text is not open. -/
theorem isOpen_take_lexemeLength {c : Char} {rest : List Char} (hBlank : isBlank c = false)
    (h : lexemeLength (c :: rest) < (c :: rest).length) :
    isOpen ((c :: rest).take (lexemeLength (c :: rest))) = false := by
  have hPos : 0 < lexemeLength (c :: rest) := lexemeLength_pos hBlank
  rcases lexeme_cases c rest with hMark | ⟨tail, rfl, rfl⟩ | rfl | rfl | hAtom
  · rw [lexemeLength_mark hMark]
    rcases hMark with rfl | rfl | rfl <;> rfl
  · rfl
  · rw [lexemeLength_string] at h ⊢
    rw [List.take_succ_cons, isOpen_string, closesString_take_stringTailLength (by simpa using h)]
    rfl
  · obtain ⟨count, hCount⟩ := Nat.exists_eq_add_of_lt hPos
    rw [hCount, Nat.zero_add, List.take_succ_cons]
    rfl
  · rw [isOpen_of_isAtom (isAtom_take hAtom hPos)]
    rw [lexemeLength_of_isAtom hAtom] at h ⊢
    exact endsInBackslash_take_atomLength h

/-- A line put behind a text adds its lexemes and changes none, if the last lexeme of the text is
not open. -/
theorem placedFrom_append_newline {offset : Nat} {text : List Char}
    (h : ∀ lexeme ∈ (placedFrom offset text).getLast?, isOpen lexeme.chars = false)
    (line : List Char) :
    placedFrom offset (text ++ '\n' :: line) =
      placedFrom offset text ++ placedFrom (offset + text.length + 1) line := by
  fun_induction placedFrom offset text with
  | case1 offset => exact placedFrom_blank rfl offset line
  | case2 offset c rest hBlank ih =>
      rw [List.cons_append, placedFrom_blank hBlank, ih h, List.length_cons]
      congr 2
      omega
  | case3 offset c rest hBlank length ih =>
      have hBlank' : isBlank c = false := by simpa using hBlank
      have hLe : length ≤ (c :: rest).length := lexemeLength_le (c :: rest)
      have hOpen : isOpen ((c :: rest).take length) = false := by
        rcases Nat.lt_or_eq_of_le hLe with hLt | hEq
        · exact isOpen_take_lexemeLength hBlank' hLt
        · refine h ⟨offset, (c :: rest).take length⟩ ?_
          simp [hEq]
      have hRest : ∀ lexeme ∈ (placedFrom (offset + length) ((c :: rest).drop length)).getLast?,
          isOpen lexeme.chars = false := by
        intro lexeme hLast
        refine h lexeme ?_
        rw [List.getLast?_cons, hLast]
        rfl
      have hLength : lexemeLength (c :: rest ++ '\n' :: line) = length :=
        lexemeLength_append_newline hBlank' hOpen line
      rw [List.cons_append] at hLength ⊢
      rw [placedFrom_lexeme hBlank', hLength, ← List.cons_append, List.take_append_of_le_length hLe,
        List.drop_append_of_le_length hLe, ih hRest, List.length_drop, List.cons_append]
      congr 3
      omega

end LispReader.Lexeme
