import LispReader.Decimal.Numeral
import LispReader.Text.Utf16
import LispReader.Value.Basic

/-!
The marks of a JSON text: brackets, separators and scalars. `marks` cuts a text into them. A place
where no mark begins ends the cutting with the mark `malformed`, so that whatever stands before it
is still seen first.
-/

namespace LispReader.Json

open LispReader.Text

/-- A mark of a JSON text. -/
inductive Mark where
  | openArray
  | closeArray
  | openObject
  | closeObject
  | comma
  | colon
  | string (value : String)
  /-- A whole number, as it is written. -/
  | whole (digits : List Char)
  /-- A number with a fraction or an exponent, as it is written. -/
  | real (digits : List Char)
  /-- One of the fixed words. -/
  | word (value : Value)
  | malformed

/-- A character that may stand between marks. -/
def isSpace (c : Char) : Bool :=
  c == ' ' || c == '\t' || c == '\n' || c == '\r'

/-- The character that a short escape stands for. -/
def unescape? : Char → Option Char
  | '"' => some '"'
  | '\\' => some '\\'
  | '/' => some '/'
  | 'b' => some '\x08'
  | 'f' => some '\x0c'
  | 'n' => some '\n'
  | 'r' => some '\r'
  | 't' => some '\t'
  | _ => none

/-- The value of a hexadecimal digit. -/
def hexDigit? (c : Char) : Option Nat :=
  if '0' ≤ c ∧ c ≤ '9' then some (c.toNat - '0'.toNat)
  else if 'a' ≤ c ∧ c ≤ 'f' then some (c.toNat - 'a'.toNat + 10)
  else if 'A' ≤ c ∧ c ≤ 'F' then some (c.toNat - 'A'.toNat + 10)
  else none

/-- The code unit that four hexadecimal digits name. -/
def namedUnit? (a b c d : Char) : Option Nat := do
  return (((← hexDigit? a) * 16 + (← hexDigit? b)) * 16 + (← hexDigit? c)) * 16 + (← hexDigit? d)

/-- The units of a string, and the text behind its closing quote, given what stands behind the
opening one. Controls must be escaped. -/
def stringUnits? : List Char → Option (List Nat × List Char)
  | [] => none
  | '"' :: rest => some ([], rest)
  | ['\\'] => none
  | '\\' :: escape :: rest =>
    match escape, rest with
    | 'u', a :: b :: c :: d :: rest => do
      let unit ← namedUnit? a b c d
      let (units, rest) ← stringUnits? rest
      return (unit :: units, rest)
    | escape, rest => do
      let c ← unescape? escape
      let (units, rest) ← stringUnits? rest
      return (c.toNat :: units, rest)
  | c :: rest =>
    if c.toNat < 0x20 then none
    else do
      let (units, rest) ← stringUnits? rest
      return (c.toNat :: units, rest)

theorem length_stringUnits? {text rest : List Char} {units : List Nat}
    (h : stringUnits? text = some (units, rest)) : rest.length < text.length := by
  fun_induction stringUnits? text generalizing units rest with
  | case1 => simp at h
  | case2 =>
      cases h
      simp
  | case3 => simp at h
  | case4 a b c d behind ih =>
      obtain ⟨unit, -, h⟩ := Option.bind_eq_some_iff.1 h
      obtain ⟨⟨others, after⟩, hRest, h⟩ := Option.bind_eq_some_iff.1 h
      cases h
      have hLength := ih hRest
      simp only [List.length_cons]
      omega
  | case5 escape behind _ ih =>
      obtain ⟨c, -, h⟩ := Option.bind_eq_some_iff.1 h
      obtain ⟨⟨others, after⟩, hRest, h⟩ := Option.bind_eq_some_iff.1 h
      cases h
      have hLength := ih hRest
      simp only [List.length_cons]
      omega
  | case6 => simp at h
  | case7 c behind _ _ _ _ ih =>
      obtain ⟨⟨others, after⟩, hRest, h⟩ := Option.bind_eq_some_iff.1 h
      cases h
      have hLength := ih hRest
      simp only [List.length_cons]
      omega

/-- Takes a fraction off the front of a text. A point without a digit behind it is none. -/
def takeFraction (text : List Char) : List Char × List Char :=
  match text with
  | '.' :: rest =>
    let digits := rest.takeWhile Char.isDigit
    if digits.isEmpty then ([], text) else ('.' :: digits, rest.dropWhile Char.isDigit)
  | _ => ([], text)

def takeSign : List Char → List Char × List Char
  | '-' :: rest => (['-'], rest)
  | '+' :: rest => (['+'], rest)
  | text => ([], text)

/-- Takes an exponent off the front of a text. One without digits is none. -/
def takeExponent (text : List Char) : List Char × List Char :=
  match text with
  | mark :: rest =>
    let (sign, behind) := takeSign rest
    let digits := behind.takeWhile Char.isDigit
    if (mark = 'e' ∨ mark = 'E') ∧ digits ≠ [] then
      (mark :: sign ++ digits, behind.dropWhile Char.isDigit)
    else ([], text)
  | [] => ([], text)

/-- Takes the digits before the point off the front of a text. A zero stands alone. -/
def takeWhole? (text : List Char) : Option (List Char × List Char) :=
  match text with
  | '0' :: rest => some (['0'], rest)
  | _ =>
    let digits := text.takeWhile Char.isDigit
    if digits.isEmpty then none else some (digits, text.dropWhile Char.isDigit)

def takeMinus : List Char → List Char × List Char
  | '-' :: rest => (['-'], rest)
  | text => ([], text)

theorem takeFraction_append (text : List Char) :
    (takeFraction text).1 ++ (takeFraction text).2 = text := by
  unfold takeFraction
  split
  · dsimp only
    split <;> simp [List.takeWhile_append_dropWhile]
  · rfl

theorem takeSign_append (text : List Char) : (takeSign text).1 ++ (takeSign text).2 = text := by
  unfold takeSign
  split <;> rfl

theorem takeExponent_append (text : List Char) :
    (takeExponent text).1 ++ (takeExponent text).2 = text := by
  cases text with
  | nil => rfl
  | cons mark rest =>
      simp only [takeExponent]
      split
      · simp [List.takeWhile_append_dropWhile, takeSign_append]
      · rfl

theorem takeMinus_append (text : List Char) : (takeMinus text).1 ++ (takeMinus text).2 = text := by
  unfold takeMinus
  split <;> rfl

theorem takeWhole?_append {text whole rest : List Char}
    (h : takeWhole? text = some (whole, rest)) : whole ++ rest = text ∧ whole ≠ [] := by
  unfold takeWhole? at h
  split at h
  · cases h
    simp
  · dsimp only at h
    split at h
    · simp at h
    · next hDigits =>
        cases h
        exact ⟨List.takeWhile_append_dropWhile, by simpa using hDigits⟩

/-- The number in front of a text, and the text behind it. -/
def number? (text : List Char) : Option (Mark × List Char) :=
  let (sign, behind) := takeMinus text
  match takeWhole? behind with
  | none => none
  | some (whole, behind) =>
    let (fraction, behind) := takeFraction behind
    let (exponent, behind) := takeExponent behind
    let digits := sign ++ whole ++ fraction ++ exponent
    if fraction.isEmpty && exponent.isEmpty then some (.whole digits, behind)
    else some (.real digits, behind)

theorem length_number? {text rest : List Char} {mark : Mark}
    (h : number? text = some (mark, rest)) : rest.length < text.length := by
  simp only [number?] at h
  split at h
  · simp at h
  · next whole behind hWhole =>
      have hMinus := congrArg List.length (takeMinus_append text)
      obtain ⟨hAppend, hPos⟩ := takeWhole?_append hWhole
      have hDigits := congrArg List.length hAppend
      have hFraction := congrArg List.length (takeFraction_append behind)
      have hExponent := congrArg List.length (takeExponent_append (takeFraction behind).2)
      have hLength := List.length_pos_iff.2 hPos
      have hRest : rest = (takeExponent (takeFraction behind).2).2 := by
        split at h <;> cases h <;> rfl
      subst hRest
      simp only [List.length_append] at hMinus hDigits hFraction hExponent
      omega

/-- The fixed words. -/
def words : List (List Char × Value) :=
  [("null".toList, .null), ("true".toList, .bool true), ("false".toList, .bool false),
    ("NaN".toList, .float (0.0 / 0.0)), ("Infinity".toList, .float (1.0 / 0.0)),
    ("-Infinity".toList, .float (-1.0 / 0.0))]

/-- The fixed word in front of a text, and the text behind it. -/
def word? (text : List Char) : Option (Mark × List Char) :=
  (words.find? fun word => word.1.isPrefixOf text).map fun word =>
    (.word word.2, text.drop word.1.length)

/-- The mark in front of a text that does not begin with a space, and the text behind it. -/
def Mark.next? : List Char → Option (Mark × List Char)
  | [] => none
  | '[' :: rest => some (.openArray, rest)
  | ']' :: rest => some (.closeArray, rest)
  | '\x7b' :: rest => some (.openObject, rest)
  | '\x7d' :: rest => some (.closeObject, rest)
  | ',' :: rest => some (.comma, rest)
  | ':' :: rest => some (.colon, rest)
  | '"' :: rest =>
    match stringUnits? rest with
    | some (units, rest) => some (.string (String.ofList (joinUnits units)), rest)
    | none => none
  | text => (word? text).or (number? text)

theorem length_word? {text rest : List Char} {mark : Mark}
    (h : word? text = some (mark, rest)) : rest.length < text.length := by
  obtain ⟨word, hWord, h⟩ := Option.map_eq_some_iff.1 h
  cases h
  have hPrefix := List.find?_some hWord
  have hMember := List.mem_of_find?_eq_some hWord
  have hLe := (List.isPrefixOf_iff_prefix.1 hPrefix).length_le
  have hPos : ∀ entry ∈ words, 0 < entry.1.length := by
    simp [words]
  have hWordPos := hPos word hMember
  rw [List.length_drop]
  omega

theorem Mark.length_next? {text rest : List Char} {mark : Mark}
    (h : Mark.next? text = some (mark, rest)) : rest.length < text.length := by
  unfold Mark.next? at h
  split at h
  · simp at h
  iterate 6
    · cases h
      simp
  · next behind =>
      split at h
      · next units after hString =>
          cases h
          have hLength := length_stringUnits? hString
          simp only [List.length_cons]
          omega
      · simp at h
  · rcases Option.or_eq_some_iff.1 h with h | ⟨-, h⟩
    · exact length_word? h
    · exact length_number? h

/-- The marks of a text. -/
def marks : List Char → List Mark
  | [] => []
  | c :: rest =>
    if isSpace c then marks rest
    else
      match _h : Mark.next? (c :: rest) with
      | none => [.malformed]
      | some (mark, behind) => mark :: marks behind
termination_by text => text.length
decreasing_by
  · simp
  · exact Mark.length_next? _h

end LispReader.Json
