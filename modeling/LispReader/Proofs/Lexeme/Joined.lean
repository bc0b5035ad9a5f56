import LispReader.Proofs.Lexeme.Blanked
import LispReader.Proofs.Lexeme.Outcome

/-!
The lexemes of a text written one to a line. A lexeme does not hang on what stands around it: taken
alone it is one lexeme, and so it is in front of a line end, unless it is open. Only the last lexeme
of a text can be open, so the lines have the lexemes of the text.
-/

namespace LispReader.Lexeme

open Text

/-- Induction on a text from the front, by one blank or one lexeme at a time. -/
@[elab_as_elim]
theorem lexeme_induction {motive : List Char → Prop} (nil : motive [])
    (blank : ∀ c rest, isBlank c = true → motive rest → motive (c :: rest))
    (lexeme : ∀ c rest, isBlank c = false →
      motive ((c :: rest).drop (lexemeLength (c :: rest))) → motive (c :: rest))
    (text : List Char) : motive text := by
  induction 0, text using placedFrom.induct with
  | case1 => exact nil
  | case2 _ c rest hBlank ih => exact blank c rest hBlank ih
  | case3 _ c rest hBlank _ ih => exact lexeme c rest (by simpa using hBlank) ih

/-- A comment goes as far alone as it does in its text. -/
theorem lexemeLength_take_comment (rest : List Char) :
    lexemeLength ((';' :: rest).take (lexemeLength (';' :: rest))) =
      lexemeLength (';' :: rest) := by
  have hCons : (';' :: rest).takeWhile (fun c => c != '\r' && c != '\n') =
      ';' :: rest.takeWhile fun c => c != '\r' && c != '\n' := rfl
  rw [take_lexemeLength_comment, hCons, lexemeLength_comment, lexemeLength_comment, lineLength,
    ← hCons, List.takeWhile_idem, lineLength]

section

variable {c : Char} (hBlank : isBlank c = false) (rest : List Char)
include hBlank

/-- A lexeme goes as far alone as it does in its text. -/
theorem lexemeLength_take : lexemeLength ((c :: rest).take (lexemeLength (c :: rest))) =
    lexemeLength (c :: rest) := by
  by_cases hComment : c = ';'
  · rw [hComment]
    exact lexemeLength_take_comment rest
  · have hStops : StopsAtom [] := by simp [StopsAtom]
    rw [← List.append_nil ((c :: rest).take _)]
    exact lexemeLength_take_append hBlank hComment (fun _ => rfl) fun _ => hStops

theorem placedFrom_take (offset : Nat) :
    placedFrom offset ((c :: rest).take (lexemeLength (c :: rest))) =
      [⟨offset, (c :: rest).take (lexemeLength (c :: rest))⟩] := by
  have hLength := lexemeLength_take hBlank rest
  have hWhole := length_take_lexemeLength (c :: rest)
  rw [take_lexemeLength_eq_cons hBlank] at hLength hWhole ⊢
  rw [placedFrom_lexeme hBlank, hLength, List.take_of_length_le (Nat.le_of_eq hWhole),
    List.drop_of_length_le (Nat.le_of_eq hWhole), placedFrom_nil]

end

/-- A line put behind a text whose last lexeme is not open adds the lexemes of the line. -/
theorem lexemes_append_newline {text : List Char}
    (h : ∀ lexeme ∈ (lexemes text).getLast?, isOpen lexeme = false) (line : List Char) :
    lexemes (text ++ '\n' :: line) = lexemes text ++ lexemes line := by
  have hLast : ∀ lexeme ∈ (placedFrom 0 text).getLast?, isOpen lexeme.chars = false := by
    intro lexeme hLexeme
    apply h
    rw [lexemes_eq_map, List.getLast?_map, hLexeme]
    rfl
  rw [lexemes_eq_map, placedFrom_append_newline hLast, List.map_append, map_chars_placedFrom,
    map_chars_placedFrom]

/-- Written one to a line, the lexemes of a text are the lexemes of the lines. -/
theorem lexemes_intercalate (text : List Char) :
    lexemes (['\n'].intercalate (lexemes text)) = lexemes text := by
  induction text using lexeme_induction with
  | nil =>
      rw [lexemes_nil]
      exact lexemes_nil
  | blank c rest hBlank ih => rwa [lexemes_blank hBlank]
  | lexeme c rest hBlank ih =>
      rw [lexemes_cons hBlank]
      generalize hLexeme : (c :: rest).take (lexemeLength (c :: rest)) = lexeme
      have hAlone : lexemes lexeme = [lexeme] := by
        rw [← hLexeme, lexemes_eq_map, placedFrom_take hBlank]
        rfl
      cases hOthers : lexemes ((c :: rest).drop (lexemeLength (c :: rest))) with
      | nil => simpa [List.intercalate] using hAlone
      | cons next others =>
          -- There is a lexeme behind this one, so this one stops inside of the text.
          have hInside : lexemeLength (c :: rest) < (c :: rest).length := by
            by_contra hEnd
            rw [List.drop_of_length_le (Nat.le_of_not_lt hEnd), lexemes_nil] at hOthers
            cases hOthers
          have hOpen : isOpen lexeme = false := hLexeme ▸ isOpen_take_lexemeLength hBlank hInside
          rw [hOthers] at ih
          have hLines : ['\n'].intercalate (lexeme :: next :: others) =
              lexeme ++ '\n' :: ['\n'].intercalate (next :: others) := by
            simp [List.intercalate]
          rw [hLines, lexemes_append_newline (by simpa [hAlone] using hOpen), hAlone, ih]
          rfl

/-- A lexeme of a text is one lexeme when it stands alone. -/
theorem scan_of_mem_lexemes {text lexeme : List Char} (h : lexeme ∈ lexemes text) :
    scan lexeme = [⟨0, lexeme.length, lexeme⟩] := by
  rw [lexemes_eq_map] at h
  obtain ⟨placed, hPlaced, rfl⟩ := List.mem_map.mp h
  obtain ⟨c, rest, -, hBlank, hChars⟩ := exists_of_mem_placedFrom hPlaced
  rw [hChars, scan_eq_map, placedFrom_take hBlank]
  simp [Placed.span]

end LispReader.Lexeme
