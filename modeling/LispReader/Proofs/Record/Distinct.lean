import LispReader.Proofs.Record.Typed
import LispReader.Proofs.Value.Agreement

/-!
Different trees have different texts. Where a tree holds texts and whole numbers alone, and none
that is too long to be written, its record is read back as the tree, so trees that are written alike
are the same, and the comparison of trees says when that is so.

Two things are left out, and both have to be. A whole number that is too long is equal to itself and
has no text. And a text of code points may hold the two halves of a pair, which is another text than
the character that the pair stands for and is written like it.
-/

namespace LispReader

variable {α β Text : Type}

namespace Token

/-- The values in the fields of a token and of the tokens in it. -/
def values : Token α → List α
  | .cons head tail => head.values ++ tail.values
  | token => token.ownValues

/-- A token with its values replaced. -/
def map (f : α → β) : Token α → Token β
  | .integer value => .integer (f value)
  | .float value => .float (f value)
  | .rational numerator denominator => .rational (f numerator) (f denominator)
  | .string value => .string (f value)
  | .symbol value => .symbol (f value)
  | .nil => .nil
  | .emptyList => .emptyList
  | .cons head tail => .cons (head.map f) (tail.map f)
  | .listStart => .listStart
  | .listEnd => .listEnd
  | .dot => .dot
  | .comment depth text => .comment (f depth) (f text)
  | .quotePrefix operator => .quotePrefix (f operator)

theorem map_injective {f : α → β} (hInjective : ∀ ⦃a b⦄, f a = f b → a = b)
    {first second : Token α} (h : first.map f = second.map f) : first = second := by
  induction first generalizing second with
  | cons head tail ihHead ihTail =>
      cases second <;> simp only [map, cons.injEq, reduceCtorEq] at h
      rw [ihHead h.1, ihTail h.2]
  | _ =>
      cases second <;>
        simp only [map, reduceCtorEq, integer.injEq, float.injEq, rational.injEq, string.injEq,
          symbol.injEq, comment.injEq, quotePrefix.injEq] at h ⊢ <;>
        first | exact hInjective h | exact ⟨hInjective h.1, hInjective h.2⟩

/-- Tokens with replaced values are compared by comparing what the values were replaced with. -/
theorem equalBy_map (equal : β → β → Bool) (f : α → β) (first second : Token α) :
    equalBy equal (first.map f) (second.map f) =
      equalBy (fun a b => equal (f a) (f b)) first second := by
  induction first generalizing second with
  | cons head tail ihHead ihTail =>
      cases second with
      | cons head' tail' => simp only [map, equalBy_cons_cons, ihHead, ihTail]
      | _ => simp [map, equalBy, kind]
  | _ => cases second <;> simp [map, equalBy, kind, ownValues, fields, List.isEqv]

end Token

namespace Scalar

/-- The value that a scalar is. -/
def toValue : Scalar String → Value
  | .number (.whole n) => .int n
  | .number (.real x) => .float x
  | .text words => .text words

theorem toValue_injective ⦃first second : Scalar String⦄ (h : first.toValue = second.toValue) :
    first = second := by
  obtain (_ | _) | _ := first <;> obtain (_ | _) | _ := second <;> cases h <;> rfl

theorem equal_toValue (first second : Scalar String) :
    Value.equal first.toValue second.toValue = first.equal second := by
  obtain (_ | _) | _ := first <;> obtain (_ | _) | _ := second <;>
    simp [toValue, equal, Value.equal, Value.isWorth, Value.number?, beq_eq_decide]

/-- A text, or a whole number that is not too long to be written. -/
inductive IsExact : Scalar Text → Prop
  | whole {n : Int} (hShort : Decimal.IsShort n) : IsExact (.number (.whole n))
  | text (text : Text) : IsExact (.text text)

/-- Without doubles, to agree is to be the same. -/
theorem Agrees.eq_of_isExact {first second : Scalar Text} (h : first.Agrees second)
    (hExact : first.IsExact) : first = second := by
  cases h with
  | real => cases hExact
  | whole | text => rfl

theorem AllAgree.eq_of_isExact {first second : List (Scalar Text)} (h : AllAgree first second)
    (hExact : ∀ scalar ∈ first, scalar.IsExact) : first = second := by
  induction h with
  | nil => rfl
  | cons hScalar _ ih =>
      obtain ⟨hHere, hRest⟩ := List.forall_mem_cons.mp hExact
      rw [hScalar.eq_of_isExact hHere, ih hRest]

end Scalar

namespace Token

/-- The form that a tree is. -/
def toForm (tree : Token (Scalar String)) : Form :=
  tree.map Scalar.toValue

theorem equal_toForm (first second : Token (Scalar String)) :
    first.toForm.equal second.toForm = same Scalar.equal first second := by
  rw [equal_eq_equalBy, toForm, toForm, equalBy_map, same_eq_equalBy]
  simp only [Scalar.equal_toValue]

theorem values_of_kind_ne {token : Token α} (hKind : token.kind ≠ .cons) :
    token.values = token.ownValues := by
  cases token with
  | cons => exact absurd rfl hKind
  | _ => rfl

theorem eq_of_ownValues_eq {first second : Token α} (hKind : first.kind ≠ .cons)
    (hKinds : first.kind = second.kind) (hValues : first.ownValues = second.ownValues) :
    first = second := by
  cases first <;> cases second <;> simp_all [kind, ownValues, fields]

/-- Trees that agree are the same, if there is no double in them. -/
theorem Agrees.eq_of_isExact {first second : Token (Scalar Text)} (h : first.Agrees second)
    (hExact : ∀ scalar ∈ first.values, scalar.IsExact) : first = second := by
  induction h with
  | cell _ _ ihHead ihTail =>
      obtain ⟨hHead, hTail⟩ := List.forall_mem_append.mp hExact
      rw [ihHead hHead, ihTail hTail]
  | apart hKind hKinds hScalars =>
      rw [values_of_kind_ne hKind] at hExact
      exact eq_of_ownValues_eq hKind hKinds (hScalars.eq_of_isExact hExact)

end Token

namespace Record

open Json (Options recordText)

theorem exists_of_has_whole {scalar : Scalar String} (h : FieldType.whole.Has scalar)
    (hExact : scalar.IsExact) : ∃ n, Decimal.IsShort n ∧ scalar = .number (.whole n) := by
  cases h
  cases hExact with
  | whole hShort => exact ⟨_, hShort, rfl⟩

theorem exists_of_has_text {scalar : Scalar String} (h : FieldType.text.Has scalar) :
    ∃ words, scalar = .text words := by
  cases h
  exact ⟨_, rfl⟩

/-- The forms of trees of texts and short whole numbers can be read back. -/
theorem wellTyped_toForm {tree : Token (Scalar String)} (hTyped : tree.Typed)
    (hExact : ∀ scalar ∈ tree.values, scalar.IsExact) : WellTyped tree.toForm := by
  induction hTyped with
  | cell _ _ ihHead ihTail =>
      obtain ⟨hHead, hTail⟩ := List.forall_mem_append.mp hExact
      exact .cons (ihHead hHead) (ihTail hTail)
  | @apart tree hKind hScalars =>
      rw [Token.values_of_kind_ne hKind] at hExact
      cases tree <;>
        simp [Token.ownValues, Token.fields, Token.kind, Token.Kind.fieldTypes]
          at hKind hScalars hExact
      case nil => exact .nil
      case emptyList => exact .emptyList
      case listStart => exact .listStart
      case listEnd => exact .listEnd
      case dot => exact .dot
      case integer =>
        obtain ⟨n, hShort, rfl⟩ := exists_of_has_whole hScalars hExact
        exact .integer hShort
      case float =>
        cases hScalars
        cases hExact
      case rational =>
        obtain ⟨numerator, hNumerator, rfl⟩ := exists_of_has_whole hScalars.1 hExact.1
        obtain ⟨denominator, hDenominator, rfl⟩ := exists_of_has_whole hScalars.2 hExact.2
        exact .rational hNumerator hDenominator
      case string =>
        obtain ⟨words, rfl⟩ := exists_of_has_text hScalars
        exact .string words
      case symbol =>
        obtain ⟨name, rfl⟩ := exists_of_has_text hScalars
        exact .symbol name
      case comment =>
        obtain ⟨depth, hDepth, rfl⟩ := exists_of_has_whole hScalars.1 hExact.1
        obtain ⟨words, rfl⟩ := exists_of_has_text hScalars.2
        exact .comment hDepth words
      case quotePrefix =>
        obtain ⟨operator, rfl⟩ := exists_of_has_text hScalars
        exact .quotePrefix operator

/-- Forms that are read back are the same if they are written alike. -/
theorem exists_encode_and_eq_iff {first second : Form} (hFirst : WellTyped first)
    (hSecond : WellTyped second) :
    ∃ text other, encode {} (.token first) false = .ok text ∧
      encode {} (.token second) false = .ok other ∧ (first = second ↔ text = other) := by
  have hOptions : ReadableOptions {} := ⟨rfl, by simp, by simp⟩
  obtain ⟨text, hText, hRead⟩ := read_encode hOptions hFirst (fun x _ => roundTrips x) false
  obtain ⟨other, hOther, hReread⟩ := read_encode hOptions hSecond (fun x _ => roundTrips x) false
  refine ⟨text, other, hText, hOther, ?_, ?_⟩
  · rintro rfl
    exact Except.ok.inj (hText.symm.trans hOther)
  · rintro rfl
    exact Except.ok.inj (hRead.symm.trans hReread)

/-- Of trees whose fields hold what belongs there, the walk along two chains finds those equal that
are built alike and hold the same, doubles as numbers. This is an equivalence, and different are the
others. It is the comparison of the forms that the trees are; and if there are no doubles in them
and no whole numbers that are too long, those trees are equal that are written alike. -/
theorem equality_of_typed [DecidableEq Text] {first second : Token (Scalar Text)}
    (hFirst : first.Typed) (hSecond : second.Typed) :
    (Token.same Scalar.equal first second = true ↔ first.Agrees second) ∧
      Token.differ Scalar.equal first second = !Token.same Scalar.equal first second ∧
      (Equivalence fun left right : { tree : Token (Scalar Text) // tree.Typed } =>
        Token.same Scalar.equal left.val right.val = true) ∧
      ∀ tree other : Token (Scalar String),
        tree.toForm.equal other.toForm = Token.same Scalar.equal tree other ∧
        (tree.Typed → other.Typed → (∀ scalar ∈ tree.values, scalar.IsExact) →
          (∀ scalar ∈ other.values, scalar.IsExact) → ∃ text text',
            encode {} (.token tree.toForm) false = .ok text ∧
            encode {} (.token other.toForm) false = .ok text' ∧
            (Token.same Scalar.equal tree other = true ↔ text = text')) := by
  refine ⟨Token.same_iff_agrees hFirst hSecond, Token.differ_eq_not_same first second,
    Token.equivalence_same, fun tree other => ⟨Token.equal_toForm tree other, ?_⟩⟩
  intro hTree hOther hExact hExact'
  obtain ⟨text, text', hText, hText', hWritten⟩ :=
    exists_encode_and_eq_iff (wellTyped_toForm hTree hExact) (wellTyped_toForm hOther hExact')
  refine ⟨text, text', hText, hText', ?_⟩
  rw [Token.same_iff_agrees hTree hOther, ← hWritten]
  constructor
  · intro h
    rw [h.eq_of_isExact hExact]
  · intro hForms
    obtain rfl := Token.map_injective Scalar.toValue_injective hForms
    exact hTree.agrees_self

/-- The two zeros are one number, and a chain that goes on where a list ends is not the list. -/
theorem equality_of_typed_chains :
    let zero (x : Float) : Token (Scalar String) := .cons (.float (.number (.real x))) .emptyList
    let name : Token (Scalar String) := .symbol (.text "a")
    let chain (ending : Token (Scalar String)) : Token (Scalar String) :=
      .cons (.integer (.number (.whole 7))) ending
    Token.same Scalar.equal (zero 0) (zero (-0)) = true ∧
      Token.differ Scalar.equal (zero 0) (zero (-0)) = false ∧
      Token.same Scalar.equal (chain (.cons name .emptyList)) (chain name) = false ∧
      ∃ text other,
        encode {} (.token (chain (.cons name .emptyList)).toForm) false = .ok text ∧
        encode {} (.token (chain name).toForm) false = .ok other ∧ text ≠ other := by
  intro zero name chain
  have hZero {x : Float} (hNumber : x.isNaN = false) : (zero x).Typed :=
    .cell (.apart (by simp [Token.kind]) (.cons (.real hNumber) .nil)) (.apart (by decide) .nil)
  have hName : name.Typed := .apart (by decide) (.cons (.text "a") .nil)
  have hChain {ending : Token (Scalar String)} (hEnding : ending.Typed) : (chain ending).Typed :=
    .cell (.apart (by decide) (.cons (.whole 7) .nil)) hEnding
  have hList : (chain (.cons name .emptyList)).Typed :=
    hChain (.cell hName (.apart (by decide) .nil))
  obtain ⟨hAgrees, hDiffer, -, hWritten⟩ :=
    equality_of_typed (hZero (by decide +kernel : (0 : Float).isNaN = false))
      (hZero (by decide +kernel : (-0 : Float).isNaN = false))
  have hSame : Token.same Scalar.equal (zero 0) (zero (-0)) = true := by
    refine hAgrees.mpr (.cell (.apart (by decide) rfl (.cons (.real ?_) .nil))
      (.apart (by decide) rfl .nil))
    exact Decimal.beq_iff_sameNumber.mp (by decide +kernel)
  have hOther : Token.same Scalar.equal (chain (.cons name .emptyList)) (chain name) = false := by
    rw [Token.same_eq_equalBy]
    decide
  have hSeven : (Scalar.number (.whole 7) : Scalar String).IsExact := .whole (by decide)
  obtain ⟨text, other, hText, hEnd, hEqual⟩ := (hWritten (chain (.cons name .emptyList))
    (chain name)).2 hList (hChain hName)
    (by simpa [chain, name, Token.values, Token.ownValues, Token.fields] using ⟨hSeven, .text "a"⟩)
    (by simpa [chain, name, Token.values, Token.ownValues, Token.fields] using ⟨hSeven, .text "a"⟩)
  refine ⟨hSame, by rw [hDiffer, hSame]; rfl, hOther, text, other, hText, hEnd, fun h => ?_⟩
  rw [hEqual.mpr h] at hOther
  cases hOther

/-- What is written for a code point of a text, which may be one half of a pair. -/
def escapePoint (point : Nat) : List Char :=
  if h : point.isValidChar then Json.escapeChar true (Char.ofNatAux point h)
  else Json.escapeUnit point

def quotePoints (points : List Nat) : String :=
  String.ofList ('"' :: points.flatMap escapePoint ++ ['"'])

/-- The record of a text of code points. -/
def stringRecord (points : List Nat) : String :=
  "\x7b\"type\": \"String\", \"value\": " ++ quotePoints points ++ "\x7d"

theorem quotePoints_map_toNat (text : String) :
    quotePoints (text.toList.map Char.toNat) = Json.quote true text := by
  have hPoint (c : Char) : escapePoint c.toNat = Json.escapeChar true c := by
    have hValid : c.toNat.isValidChar := c.valid
    have hChar : Char.ofNatAux c.toNat hValid = c :=
      Char.ext (UInt32.toNat_inj.mp UInt32.toNat_ofNatLT)
    rw [escapePoint, dif_pos hValid, hChar]
  simp only [quotePoints, Json.quote, List.flatMap_map, hPoint]

theorem recordText_singleton (layout : Json.Layout) (kind : Token.Kind) (before value : String) :
    recordText layout kind [before ++ value] =
      "\x7b" ++ layout.quote "type" ++ layout.keySeparator ++ layout.quote kind.name ++ before ++
        value ++ "\x7d" := by
  simp only [recordText, String.append_assoc, String.join_cons, String.join_nil,
    String.append_empty]

/-- The record of a text is that of its characters. -/
theorem encode_string (text : String) :
    encode {} (.token (.string (.text text))) false =
      .ok (stringRecord (text.toList.map Char.toNat)) := by
  let layout := inOrder ({} : Options).layout
  let before := layout.itemSeparator ++ layout.quote "value" ++ layout.keySeparator
  have hRecord : writeNested layout (valueLayout ({} : Options).layout) (.string (.text text)) =
      .ok (recordText layout .string [before ++ Json.quote true text]) := rfl
  have hFront : "\x7b" ++ layout.quote "type" ++ layout.keySeparator ++
      layout.quote Token.Kind.string.name ++ before =
      "\x7b\"type\": \"String\", \"value\": " := by decide
  have hPoints : stringRecord (text.toList.map Char.toNat) =
      "\x7b\"type\": \"String\", \"value\": " ++ Json.quote true text ++ "\x7d" :=
    congrArg (fun quoted => "\x7b\"type\": \"String\", \"value\": " ++ quoted ++ "\x7d")
      (quotePoints_map_toNat text)
  rw [encode_token rfl, write_eq_writeNested (.of_forall_form?_eq_none
    (by simp [Token.fields, Token.Field.form?])), hRecord, recordText_singleton, hFront, hPoints]

/-- A whole number that is too long is equal to itself and not written. And if code points are
written as characters are, the halves of a pair are written like the character that they would be
together. -/
theorem not_forall_same_iff_encode_eq :
    let long : Token (Scalar String) := .integer (.number (.whole (10 ^ Decimal.digitLimit)))
    let halves : Token (Scalar (List Nat)) := .string (.text [0xd83d, 0xde00])
    let whole : Token (Scalar (List Nat)) := .string (.text [0x1f600])
    (long.Typed ∧ Token.same Scalar.equal long long = true ∧
        encode {} (.token long.toForm) false = .error .tooLong) ∧
      halves.Typed ∧ whole.Typed ∧ Token.same Scalar.equal halves whole = false ∧
      (∀ text, encode {} (.token (.string (.text text))) false =
        .ok (stringRecord (text.toList.map Char.toNat))) ∧
      stringRecord [0xd83d, 0xde00] = stringRecord [0x1f600] := by
  intro long halves whole
  have hLong : long.Typed := .apart (by decide) (.cons (.whole _) .nil)
  have hText (points : List Nat) : Token.Typed (.string (.text points)) :=
    .apart (by simp [Token.kind]) (.cons (.text points) .nil)
  refine ⟨⟨hLong, (Token.same_iff_agrees hLong hLong).mpr hLong.agrees_self,
    encode_integer_eq_error rfl Decimal.not_isShort_ten_pow false⟩, hText _, hText _, ?_,
    encode_string, by decide⟩
  rw [Token.same_eq_equalBy]
  decide

end Record

end LispReader
