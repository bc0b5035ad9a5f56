import Mathlib.Data.List.Forall2
import LispReader.Proofs.Decimal.Equality
import LispReader.Proofs.Value.Comparison

/-!
Tokens that agree: they are built alike, and wherever they have a value they have the same one. The
same double is one that stands for the same number. Among tokens whose fields hold what belongs
there, to agree is to be equal, and it is an equivalence. What a text is made of is left open: only
whether two texts are the same matters.
-/

namespace LispReader

open List (Forall₂)

/-- What belongs into the fields of a token: a number or a text. -/
inductive Scalar (Text : Type) where
  | number (value : Number)
  | text (value : Text)

/-- What a field holds by the variant of its token. -/
inductive FieldType where
  | whole
  | real
  | text
  deriving Repr, DecidableEq

/-- The types of a variant's values, in the order of its fields. -/
def Token.Kind.fieldTypes : Kind → List FieldType
  | .integer => [.whole]
  | .float => [.real]
  | .rational => [.whole, .whole]
  | .string | .symbol | .quotePrefix => [.text]
  | .comment => [.whole, .text]
  | .nil | .emptyList | .cons | .listStart | .listEnd | .dot => []

variable {Text : Type}

/-- A scalar is of a type. Doubles that are no number are of none. -/
inductive FieldType.Has : FieldType → Scalar Text → Prop
  | whole (n : Int) : Has .whole (.number (.whole n))
  | real {x : Float} (hNumber : x.isNaN = false) : Has .real (.number (.real x))
  | text (text : Text) : Has .text (.text text)

namespace Scalar

/-- Exact equality of scalars. A number is no text. -/
def equal [DecidableEq Text] : Scalar Text → Scalar Text → Bool
  | .number a, .number b => a.equal b
  | .text a, .text b => a = b
  | _, _ => false

/-- Scalars that are the same, doubles as numbers. -/
inductive Agrees : Scalar Text → Scalar Text → Prop
  | whole (n : Int) : Agrees (.number (.whole n)) (.number (.whole n))
  | real {x y : Float}
      (hNumber : (Decimal.Binary64.ofFloat x).SameNumber (Decimal.Binary64.ofFloat y)) :
      Agrees (.number (.real x)) (.number (.real y))
  | text (text : Text) : Agrees (.text text) (.text text)

theorem Agrees.refl_of_has {type : FieldType} {scalar : Scalar Text} (h : type.Has scalar) :
    scalar.Agrees scalar := by
  cases h with
  | whole n => exact .whole n
  | @real x hNumber =>
      apply Agrees.real
      apply Decimal.Binary64.SameNumber.refl
      intro hNan
      rw [Decimal.isNaN_of_ofFloat hNan] at hNumber
      cases hNumber
  | text text => exact .text text

theorem Agrees.symm {first second : Scalar Text} (h : first.Agrees second) :
    second.Agrees first := by
  cases h with
  | whole n => exact .whole n
  | real hNumber => exact .real hNumber.symm
  | text text => exact .text text

theorem Agrees.trans {first second third : Scalar Text} (h : first.Agrees second)
    (hNext : second.Agrees third) : first.Agrees third := by
  cases h with
  | whole n => exact hNext
  | real hNumber =>
      cases hNext with
      | real hOther => exact .real (hNumber.trans hOther)
  | text text => exact hNext

/-- Scalars of one type are equal if they are the same. -/
theorem equal_iff_agrees [DecidableEq Text] {type : FieldType} {first second : Scalar Text}
    (hFirst : type.Has first) (hSecond : type.Has second) :
    equal first second = true ↔ first.Agrees second := by
  cases hFirst with
  | whole n =>
      cases hSecond with
      | whole m =>
          simp only [equal, Number.equal, beq_iff_eq]
          constructor
          · rintro rfl
            exact .whole n
          · rintro ⟨⟩
            rfl
  | @real x hNumber =>
      cases hSecond with
      | @real y hOther =>
          simp only [equal, Number.equal, Decimal.beq_iff_sameNumber]
          constructor
          · exact .real
          · rintro ⟨⟩
            assumption
  | text first =>
      cases hSecond with
      | text second =>
          simp only [equal, decide_eq_true_eq]
          constructor
          · rintro rfl
            exact .text first
          · rintro ⟨⟩
            rfl

/-- Rows of scalars that are the same, one by one. -/
def AllAgree (first second : List (Scalar Text)) : Prop :=
  Forall₂ Agrees first second

theorem allAgree_self {types : List FieldType} {scalars : List (Scalar Text)}
    (h : Forall₂ FieldType.Has types scalars) : AllAgree scalars scalars := by
  induction h with
  | nil => exact .nil
  | cons hScalar _ ih => exact .cons (.refl_of_has hScalar) ih

theorem AllAgree.symm {first second : List (Scalar Text)} (h : AllAgree first second) :
    AllAgree second first := by
  apply Forall₂.flip
  exact h.imp fun _ _ hScalar => hScalar.symm

theorem AllAgree.trans {first second third : List (Scalar Text)} (h : AllAgree first second)
    (hNext : AllAgree second third) : AllAgree first third := by
  induction h generalizing third with
  | nil => exact hNext
  | cons hScalar _ ih =>
      cases hNext with
      | cons hOther hRest => exact .cons (hScalar.trans hOther) (ih hRest)

theorem isEqv_iff_agrees [DecidableEq Text] {types : List FieldType}
    {first second : List (Scalar Text)} (hFirst : Forall₂ FieldType.Has types first)
    (hSecond : Forall₂ FieldType.Has types second) :
    first.isEqv second equal = true ↔ AllAgree first second := by
  unfold AllAgree
  induction hFirst generalizing second with
  | nil =>
      cases hSecond
      simp [List.isEqv]
  | cons hScalar _ ih =>
      cases hSecond with
      | cons hOther hRest =>
          rw [List.isEqv, Bool.and_eq_true, equal_iff_agrees hScalar hOther, ih hRest,
            List.forall₂_cons]

end Scalar

namespace Token

/-- The scalars in the fields of a token, and of the tokens in it, are of the types that belong
there. -/
inductive Typed : Token (Scalar Text) → Prop
  | cell {head tail : Token (Scalar Text)} (hHead : Typed head) (hTail : Typed tail) :
      Typed (.cons head tail)
  | apart {tree : Token (Scalar Text)} (hKind : tree.kind ≠ .cons)
      (hScalars : Forall₂ FieldType.Has tree.kind.fieldTypes tree.ownValues) : Typed tree

/-- Tokens of the same structure with the same scalars. -/
inductive Agrees : Token (Scalar Text) → Token (Scalar Text) → Prop
  | cell {head tail head' tail' : Token (Scalar Text)} (hHead : Agrees head head')
      (hTail : Agrees tail tail') : Agrees (.cons head tail) (.cons head' tail')
  | apart {first second : Token (Scalar Text)} (hKind : first.kind ≠ .cons)
      (hKinds : first.kind = second.kind)
      (hScalars : Scalar.AllAgree first.ownValues second.ownValues) : Agrees first second

variable {first second third : Token (Scalar Text)}

theorem Agrees.kind_eq (h : first.Agrees second) : first.kind = second.kind := by
  cases h with
  | cell => rfl
  | apart _ hKinds => exact hKinds

theorem agrees_cons_cons_iff {head tail head' tail' : Token (Scalar Text)} :
    (cons head tail).Agrees (cons head' tail') ↔ head.Agrees head' ∧ tail.Agrees tail' := by
  constructor
  · intro h
    cases h with
    | cell hHead hTail => exact ⟨hHead, hTail⟩
    | apart hKind => exact absurd rfl hKind
  · rintro ⟨hHead, hTail⟩
    exact .cell hHead hTail

theorem agrees_iff_of_kind_ne (hKind : first.kind ≠ .cons) :
    first.Agrees second ↔
      first.kind = second.kind ∧ Scalar.AllAgree first.ownValues second.ownValues := by
  constructor
  · intro h
    cases h with
    | cell => exact absurd rfl hKind
    | apart _ hKinds hScalars => exact ⟨hKinds, hScalars⟩
  · rintro ⟨hKinds, hScalars⟩
    exact .apart hKind hKinds hScalars

theorem Typed.agrees_self (h : first.Typed) : first.Agrees first := by
  induction h with
  | cell _ _ ihHead ihTail => exact .cell ihHead ihTail
  | apart hKind hScalars => exact .apart hKind rfl (Scalar.allAgree_self hScalars)

theorem Agrees.symm (h : first.Agrees second) : second.Agrees first := by
  induction h with
  | cell _ _ ihHead ihTail => exact .cell ihHead ihTail
  | apart hKind hKinds hScalars => exact .apart (hKinds ▸ hKind) hKinds.symm hScalars.symm

theorem Agrees.trans (h : first.Agrees second) (hNext : second.Agrees third) :
    first.Agrees third := by
  induction h generalizing third with
  | cell _ _ ihHead ihTail =>
      cases hNext with
      | cell hHead hTail => exact .cell (ihHead hHead) (ihTail hTail)
      | apart hKind => exact absurd rfl hKind
  | apart hKind hKinds hScalars =>
      obtain ⟨hOther, hRest⟩ := (agrees_iff_of_kind_ne (hKinds ▸ hKind)).mp hNext
      exact .apart hKind (hKinds.trans hOther) (hScalars.trans hRest)

variable [DecidableEq Text]

/-- Of tokens whose fields hold what belongs there, those are equal that agree. -/
theorem equalBy_iff_agrees (hFirst : first.Typed) (hSecond : second.Typed) :
    equalBy Scalar.equal first second = true ↔ first.Agrees second := by
  induction hFirst generalizing second with
  | cell _ _ ihHead ihTail =>
      cases hSecond with
      | cell hHead hTail =>
          rw [equalBy_cons_cons, Bool.and_eq_true, agrees_cons_cons_iff, ihHead hHead,
            ihTail hTail]
      | apart hKind =>
          -- a cell and a token that is none
          rw [equalBy_of_not_cells fun hCells => hKind hCells.2, Bool.and_eq_true,
            decide_eq_true_iff]
          constructor
          · rintro ⟨hKinds, -⟩
            exact absurd hKinds.symm hKind
          · intro h
            exact absurd h.kind_eq.symm hKind
  | @apart tree hKind hScalars =>
      rw [equalBy_of_not_cells fun hCells => hKind hCells.1, Bool.and_eq_true, decide_eq_true_iff,
        agrees_iff_of_kind_ne hKind]
      apply and_congr_right
      intro hKinds
      cases hSecond with
      | cell => exact absurd hKinds hKind
      | apart _ hOthers => exact Scalar.isEqv_iff_agrees hScalars (hKinds ▸ hOthers)

theorem same_iff_agrees (hFirst : first.Typed) (hSecond : second.Typed) :
    same Scalar.equal first second = true ↔ first.Agrees second := by
  rw [same_eq_equalBy, equalBy_iff_agrees hFirst hSecond]

/-- Equality is an equivalence of these tokens. -/
theorem equivalence_same :
    Equivalence fun first second : { tree : Token (Scalar Text) // tree.Typed } =>
      same Scalar.equal first.val second.val = true where
  refl tree := (same_iff_agrees tree.property tree.property).mpr tree.property.agrees_self
  symm {first second} h := by
    apply (same_iff_agrees second.property first.property).mpr
    exact ((same_iff_agrees first.property second.property).mp h).symm
  trans {first second third} h hNext := by
    apply (same_iff_agrees first.property third.property).mpr
    apply ((same_iff_agrees first.property second.property).mp h).trans
    exact (same_iff_agrees second.property third.property).mp hNext

end Token

end LispReader
