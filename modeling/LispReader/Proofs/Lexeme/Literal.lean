import LispReader.Proofs.Lexeme.Outcome
import LispReader.Proofs.Lexeme.Whole

/-!
String literals by their parts. What stands between the quotes of a literal is a row of pieces:
characters that stand for themselves, and escapes. The rules accept just the texts that are made so,
and the string is what the pieces mean, one behind the other. There are six escapes; every other
character behind a backslash is at fault.
-/

namespace LispReader.Lexeme

/-- The escapes that a backslash begins. -/
inductive Escape where
  | backslash
  | doubleQuote
  | singleQuote
  | newline
  | carriageReturn
  | tab
  deriving Repr, DecidableEq

namespace Escape

/-- The character behind the backslash. -/
def letter : Escape → Char
  | .backslash => '\\'
  | .doubleQuote => '"'
  | .singleQuote => '\''
  | .newline => 'n'
  | .carriageReturn => 'r'
  | .tab => 't'

/-- The character that an escape stands for. -/
def meaning : Escape → Char
  | .backslash => '\\'
  | .doubleQuote => '"'
  | .singleQuote => '\''
  | .newline => '\n'
  | .carriageReturn => '\r'
  | .tab => '\t'

@[simp]
theorem unescape?_letter (escape : Escape) : unescape? escape.letter = some escape.meaning := by
  cases escape <;> rfl

/-- There are no other escapes. -/
theorem exists_of_unescape?_eq_some {c d : Char} (h : unescape? c = some d) :
    ∃ escape : Escape, escape.letter = c ∧ escape.meaning = d := by
  unfold unescape? at h
  split at h
  all_goals cases h
  · exact ⟨.backslash, rfl, rfl⟩
  · exact ⟨.doubleQuote, rfl, rfl⟩
  · exact ⟨.singleQuote, rfl, rfl⟩
  · exact ⟨.newline, rfl, rfl⟩
  · exact ⟨.carriageReturn, rfl, rfl⟩
  · exact ⟨.tab, rfl, rfl⟩

end Escape

/-- What the body of a string literal is made of: characters that stand for themselves, and
escapes. -/
inductive LiteralPiece where
  | plain (c : Char) (not_quote : c ≠ '"') (not_backslash : c ≠ '\\')
  | escaped (escape : Escape)

namespace LiteralPiece

def written : LiteralPiece → List Char
  | .plain c _ _ => [c]
  | .escaped escape => ['\\', escape.letter]

def meaning : LiteralPiece → Char
  | .plain c _ _ => c
  | .escaped escape => escape.meaning

end LiteralPiece

/-- What follows the opening quote of a string literal whose body is made of pieces. -/
def literalTail (pieces : List LiteralPiece) : List Char :=
  pieces.flatMap LiteralPiece.written ++ ['"']

theorem literalTail_cons (piece : LiteralPiece) (pieces : List LiteralPiece) :
    literalTail (piece :: pieces) = piece.written ++ literalTail pieces := by
  rw [literalTail, List.flatMap_cons, List.append_assoc, literalTail]

theorem decodeString_literalTail (pieces : List LiteralPiece) :
    decodeString (literalTail pieces) = .ok (pieces.map LiteralPiece.meaning) := by
  induction pieces with
  | nil => rfl
  | cons piece pieces ih =>
      rw [literalTail_cons]
      cases piece with
      | plain c not_quote not_backslash =>
          show decodeString (c :: literalTail pieces) = _
          rw [decodeString_cons not_backslash not_quote, ih]
          rfl
      | escaped escape =>
          show decodeString ('\\' :: escape.letter :: literalTail pieces) = _
          rw [decodeString_pair, escape.unescape?_letter, ih]
          rfl

/-- Whatever is decoded is made of pieces. -/
theorem exists_pieces_of_decodeString {tail chars : List Char}
    (h : decodeString tail = .ok chars) : ∃ pieces, tail = literalTail pieces := by
  induction tail using escape_induction generalizing chars with
  | nil | lone => cases h
  | pair c rest ih =>
      obtain ⟨d, decoded, hEscape, hRest, -⟩ := decodeString_pair_eq_ok_iff.mp h
      obtain ⟨escape, rfl, -⟩ := Escape.exists_of_unescape?_eq_some hEscape
      obtain ⟨pieces, rfl⟩ := ih hRest
      exact ⟨_, (literalTail_cons (.escaped escape) pieces).symm⟩
  | other c rest hBackslash ih =>
      by_cases hQuote : c = '"'
      · subst hQuote
        rw [decodeString] at h
        split at h
        · next hEmpty =>
            obtain rfl := List.isEmpty_iff.mp hEmpty
            exact ⟨[], rfl⟩
        · cases h
      · obtain ⟨decoded, hRest, -⟩ := (decodeString_cons_eq_ok_iff hBackslash hQuote).mp h
        obtain ⟨pieces, rfl⟩ := ih hRest
        exact ⟨_, (literalTail_cons (.plain c hQuote hBackslash) pieces).symm⟩

theorem decodeString_eq_ok_iff {tail chars : List Char} :
    decodeString tail = .ok chars ↔
      ∃ pieces, tail = literalTail pieces ∧ chars = pieces.map LiteralPiece.meaning := by
  constructor
  · intro h
    obtain ⟨pieces, rfl⟩ := exists_pieces_of_decodeString h
    rw [decodeString_literalTail] at h
    exact ⟨pieces, rfl, (Except.ok.inj h).symm⟩
  · rintro ⟨pieces, rfl, rfl⟩
    exact decodeString_literalTail pieces

/-- A string literal that is not decoded is refused. -/
theorem refused_of_decodeString {tail : List Char} {flaw : StringFlaw}
    (h : decodeString tail = .error flaw) : Refused ('"' :: tail) := by
  have hClassify := classify_string_eq tail
  rw [h] at hClassify
  cases flaw <;> exact ⟨_, _, hClassify, rfl, rfl, rfl⟩

/-- The string literal of a text: it stands between double quotes, with a backslash in front of
every backslash and every double quote. -/
def literal (text : List Char) : List Char :=
  '"' :: (escaped text ++ ['"'])

/-- The literal of a text is one lexeme when it stands alone. -/
theorem scan_literal (text : List Char) :
    scan (literal text) = [⟨0, (literal text).length, literal text⟩] := by
  have hLength : lexemeLength (literal text) = (literal text).length := by
    rw [literal, lexemeLength_string, stringTailLength_escaped]
    simp
  have hPlaced : placedFrom 0 (literal text) = [⟨0, literal text⟩] := by
    rw [literal, placedFrom_lexeme rfl, ← literal, hLength, List.take_length, List.drop_length,
      placedFrom_nil]
  rw [scan_eq_map, hPlaced]
  simp [Placed.span]

/-- A text that begins with a double quote means a string if pieces and a closing quote follow, and
then the string is what the pieces mean, each by itself; every other one is refused. So the literal
of a text is one lexeme, and it means the text. -/
theorem classify_string_literal :
    (∀ tail value, classify ('"' :: tail) = .ok (.string value) ↔
      ∃ pieces, tail = literalTail pieces ∧
        value = .text (String.ofList (pieces.map LiteralPiece.meaning))) ∧
    (∀ tail, Refused ('"' :: tail) ↔ ∀ pieces, tail ≠ literalTail pieces) ∧
    ∀ text, scan (literal text) = [⟨0, (literal text).length, literal text⟩] ∧
      classify (literal text) = .ok (.string (.text (String.ofList text))) := by
  refine ⟨fun tail value => ?_, fun tail => ?_, fun text => ?_⟩
  · rw [classify_string_eq_ok_iff]
    constructor
    · rintro ⟨chars, hDecode, hForm⟩
      obtain ⟨pieces, rfl, rfl⟩ := decodeString_eq_ok_iff.mp hDecode
      exact ⟨pieces, rfl, Token.string.inj hForm⟩
    · rintro ⟨pieces, rfl, rfl⟩
      exact ⟨_, decodeString_literalTail pieces, rfl⟩
  · constructor
    · rintro hRefused pieces rfl
      apply hRefused.ne_ok
      exact classify_string_eq_ok_iff.mpr ⟨_, decodeString_literalTail pieces, rfl⟩
    · intro hOther
      cases hDecode : decodeString tail with
      | error flaw => exact refused_of_decodeString hDecode
      | ok chars =>
          obtain ⟨pieces, hTail⟩ := exists_pieces_of_decodeString hDecode
          exact absurd hTail (hOther pieces)
  · exact ⟨scan_literal text, classify_string text⟩

end LispReader.Lexeme
