import LispReader.Proofs.Decimal.Reread
import LispReader.Proofs.Form.Built
import LispReader.Proofs.Record.RoundTrip

/-!
The forms of a text as records. Their fields hold what belongs there: 64-bit numbers, finite doubles
and texts. The only numbers that the text does not bound by its words are the depths of comments,
which are bounded by its length. And the text of every finite double is read as the double, so there
is no form of a text that is not read back from its record.
-/

namespace LispReader

open Lexeme

/-- What holds of sound forms and of a comment holds as far as an admissible token matters. -/
theorem Admissible.holdsOfToken {p : Form → Prop} {token : Form} (h : Admissible token)
    (hSound : ∀ form, Form.Sound form → p form) (hComment : token.isComment = true → p token) :
    HoldsOfToken p token where
  atom hAtom := hSound token (h.sound hAtom).1
  comment := hComment
  operator operator hToken := hSound _ (h.operator operator hToken)

/-- A comment says how many marks it begins with, which are no more than its characters. -/
theorem exists_of_isComment {text : List Char} {token : Form} (hLone : LoneMark text)
    (h : classify text = .ok token) (hComment : token.isComment = true) :
    ∃ (depth : Nat) (words : String), depth ≤ text.length ∧
      token = .comment (.int depth) (.text words) := by
  obtain ⟨rule, quoted, -, hAttempt⟩ := exists_of_classify_eq_ok h
  cases Rule.gives_of_attempt hAttempt with
  | comment => exact ⟨_, _, (List.takeWhile_sublist _).length_le, rfl⟩
  | functionQuote hStarts hApplied =>
      obtain rfl := hLone _ (.inr hStarts)
      cases hApplied
      cases hComment
  | quote hStarts hApplied =>
      obtain rfl := hLone _ (.inl hStarts)
      cases hApplied
      cases hComment
  | _ => cases hComment

theorem length_le_of_mem_lexemes {text lexeme : List Char} (h : lexeme ∈ lexemes text) :
    lexeme.length ≤ text.length := by
  rw [lexemes_eq_map] at h
  obtain ⟨placed, hPlaced, rfl⟩ := List.mem_map.mp h
  exact (Nat.le_add_left _ _).trans (foundIn_of_mem_placedFrom hPlaced).stop_le

namespace Record

theorem wellTyped_of_sound {form : Form} (h : Form.Sound form) : WellTyped form := by
  induction h with
  | integer least greatest => exact .integer (isShort_of_word least greatest)
  | float finite => exact .float (Decimal.isNaN_of_isFinite finite)
  | rational least greatest least' greatest' =>
      exact .rational (isShort_of_word least greatest)
        (isShort_of_word (Int.le_trans (by decide) least') greatest')
  | string text => exact .string text
  | symbol => exact .symbol _
  | nil => exact .nil
  | emptyList => exact .emptyList
  | cons _ _ ihHead ihTail => exact .cons ihHead ihTail

theorem keptByCells_wellTyped : KeptByCells WellTyped :=
  ⟨.emptyList, fun _ _ => .cons⟩

variable {text : List Char} {keepComments : Bool} {maxDepth : Int} {forms : List Form}

/-- The fields of the forms of a text hold what belongs there, unless a comment could have more
marks than can be counted in a number that can be read. -/
theorem wellTyped_of_readText (hRead : readText text keepComments maxDepth = .ok forms)
    (hLength : text.length < 10 ^ Decimal.digitLimit) : ∀ form ∈ forms, WellTyped form := by
  refine forall_of_readText keptByCells_wellTyped (fun lexeme hLexeme token hToken => ?_) hRead
  have hLone := loneMark_of_mem_lexemes hLexeme
  refine (admissible_of_classify hLone hToken).holdsOfToken (fun form => wellTyped_of_sound)
    fun hComment => ?_
  obtain ⟨depth, words, hDepth, rfl⟩ := exists_of_isComment hLone hToken hComment
  have hText := length_le_of_mem_lexemes hLexeme
  exact .comment (Decimal.isShort_iff.mpr (by omega)) words

/-- The text of every finite double is read as the double. -/
theorem roundTrips (x : Float) : RoundTrips x := by
  intro hFinite
  obtain ⟨negative, significand, exponent, hValue⟩ := Decimal.exists_of_isFinite hFinite
  exact Decimal.readFloat?_text Json.floatFormat hValue

end Record

end LispReader
