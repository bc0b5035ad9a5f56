import LispReader.Value.Equality

/-!
What forms hold apart from forms. A field of a token has a form in it, its child or a token that
stands there as a value, or else a plain value. `Token.leaves` are the plain values at all depths,
and `Value.numbers` and `Token.numbers` the numbers that are to be found in them, among which
`Token.floats` are the doubles. A property of all forms is shown along the forms in their fields,
`Token.fields_induction`.
-/

namespace LispReader

/-- The form in a field. -/
def Token.Field.form? : Token.Field Value → Option Form
  | .child form => some form
  | .leaf (.token form) => some form
  | .leaf _ => none

mutual

/-- The plain values of a field that holds a value. -/
def Value.leaves : Value → List Value
  | .token form => form.leaves
  | value => [value]

/-- The plain values in the fields of a token and of the forms inside of it. -/
def Token.leaves : Form → List Value
  | .integer value | .float value | .string value | .symbol value | .quotePrefix value =>
    value.leaves
  | .rational first second | .comment first second => first.leaves ++ second.leaves
  | .cons head tail => head.leaves ++ tail.leaves
  | .nil | .emptyList | .listStart | .listEnd | .dot => []

end

/-- The plain values of a field. -/
def Token.Field.leaves : Token.Field Value → List Value
  | .leaf value => value.leaves
  | .child form => form.leaves

mutual

/-- The numbers of a value, in the order in which they stand there. -/
def Value.numbers : Value → List Number
  | .int value => [.whole value]
  | .float x => [.real x]
  | .list items | .tuple items => Value.numbersOfAll items
  | .dict entries => Value.numbersOfEntries entries
  | .mapping entries => Value.numbersOfMembers entries
  | .token form => form.numbers
  | .null | .bool _ | .text _ | .bytes _ | .object => []

def Value.numbersOfAll : List Value → List Number
  | [] => []
  | item :: rest => item.numbers ++ Value.numbersOfAll rest

def Value.numbersOfEntries : List (String × Value) → List Number
  | [] => []
  | (_, value) :: rest => value.numbers ++ Value.numbersOfEntries rest

def Value.numbersOfMembers : List (Value × Value) → List Number
  | [] => []
  | (key, value) :: rest => key.numbers ++ value.numbers ++ Value.numbersOfMembers rest

/-- The numbers of a token. -/
def Token.numbers : Form → List Number
  | .integer value | .float value | .string value | .symbol value | .quotePrefix value =>
    value.numbers
  | .rational first second | .comment first second => first.numbers ++ second.numbers
  | .cons head tail => head.numbers ++ tail.numbers
  | .nil | .emptyList | .listStart | .listEnd | .dot => []

end

/-- The numbers of a field. -/
def Token.Field.numbers : Token.Field Value → List Number
  | .leaf value => value.numbers
  | .child form => form.numbers

/-- The double that a number is. -/
def Number.real? : Number → Option Float
  | .whole _ => none
  | .real x => some x

/-- The doubles of a token. -/
def Token.floats (form : Form) : List Float :=
  form.numbers.filterMap Number.real?

/-- The forms inside of a form stand in cells: no other field holds one. -/
inductive Token.NestsInCells : Form → Prop
  | fields {form : Form}
      (hLeaves : ∀ name value, (name, .leaf value) ∈ form.fields →
        (Token.Field.leaf value).form? = none)
      (hChildren : ∀ name child, (name, .child child) ∈ form.fields → NestsInCells child) :
      NestsInCells form

/-- A value that is no container and that JSON has a text for. -/
def Value.isScalar : Value → Bool
  | .null | .bool _ | .int _ | .float _ | .text _ => true
  | _ => false

/-- A value that JSON has a text for, with no form anywhere inside of it. -/
inductive Value.IsJson : Value → Prop
  | scalar {value : Value} (hScalar : value.isScalar = true) : IsJson value
  | list {items : List Value} (hItems : ∀ item ∈ items, IsJson item) : IsJson (.list items)
  | tuple {items : List Value} (hItems : ∀ item ∈ items, IsJson item) : IsJson (.tuple items)
  | dict {entries : List (String × Value)} (hEntries : ∀ entry ∈ entries, IsJson entry.2) :
      IsJson (.dict entries)

namespace Token

theorem leaves_eq (form : Form) :
    form.leaves = form.fields.flatMap fun field => field.2.leaves := by
  cases form <;> simp [Token.leaves, Token.fields, Field.leaves]

theorem numbers_eq (form : Form) :
    form.numbers = form.fields.flatMap fun field => field.2.numbers := by
  cases form <;> simp [Token.numbers, Token.fields, Field.numbers]

theorem leaves_of_mem_fields {form : Form} {field : String × Field Value} {p : Value → Prop}
    (hLeaves : ∀ value ∈ form.leaves, p value) (hField : field ∈ form.fields) :
    ∀ value ∈ field.2.leaves, p value := by
  intro value hValue
  refine hLeaves value ?_
  rw [leaves_eq]
  exact List.mem_flatMap.2 ⟨field, hField, hValue⟩

theorem Field.eq_leaf_of_form?_eq_none {field : Field Value} (hNone : field.form? = none) :
    ∃ value : Value, field = .leaf value ∧ value.leaves = [value] := by
  unfold Field.form? at hNone
  split at hNone
  · cases hNone
  · cases hNone
  · next value hValue =>
      refine ⟨value, rfl, ?_⟩
      cases value with
      | token form => cases hValue form rfl
      | _ => rfl

theorem Field.leaves_of_form? {field : Field Value} {inner : Form}
    (hInner : field.form? = some inner) : field.leaves = inner.leaves := by
  unfold Field.form? at hInner
  split at hInner <;> cases hInner <;> rfl

theorem Field.numbers_of_form? {field : Field Value} {inner : Form}
    (hInner : field.form? = some inner) : field.numbers = inner.numbers := by
  unfold Field.form? at hInner
  split at hInner <;> cases hInner
  · rfl
  · simp [Field.numbers, Value.numbers]

namespace NestsInCells

theorem cons {head tail : Form} (hHead : head.NestsInCells) (hTail : tail.NestsInCells) :
    NestsInCells (.cons head tail) := by
  refine .fields (fun name value hField => ?_) fun name child hField => ?_
  · simp [Token.fields] at hField
  · obtain ⟨-, rfl⟩ | ⟨-, rfl⟩ : (name = _ ∧ child = head) ∨ (name = _ ∧ child = tail) := by
      simpa [Token.fields] using hField
    · exact hHead
    · exact hTail

/-- A form without forms in its fields. -/
theorem of_forall_form?_eq_none {form : Form} (h : ∀ field ∈ form.fields, field.2.form? = none) :
    form.NestsInCells := by
  refine .fields (fun name value hField => h _ hField) fun name child hField => ?_
  cases h _ hField

end NestsInCells

/-- A form in a field of such a form is the child of a cell. -/
theorem NestsInCells.of_form? {form : Form} (h : form.NestsInCells)
    {field : String × Field Value} (hField : field ∈ form.fields) {inner : Form}
    (hInner : field.2.form? = some inner) : inner.NestsInCells := by
  obtain ⟨name, held⟩ := field
  cases h with
  | fields hLeaves hChildren =>
      cases held with
      | child child =>
          cases hInner
          exact hChildren name _ hField
      | leaf value =>
          rw [hLeaves name value hField] at hInner
          cases hInner

theorem sizeOf_field_le {form : Form} {field : String × Field Value}
    (hField : field ∈ form.fields) : sizeOf field.2 ≤ sizeOf form := by
  cases form with
  | nil | emptyList | listStart | listEnd | dot => simp [Token.fields] at hField
  | integer | float | string | symbol | quotePrefix =>
      cases List.mem_singleton.1 hField
      simp
  | rational | cons | comment =>
      obtain rfl | rfl : field = _ ∨ field = _ := by simpa [Token.fields] using hField
      all_goals simp +arith

theorem Field.sizeOf_lt {field : Field Value} {inner : Form}
    (hInner : field.form? = some inner) : sizeOf inner < sizeOf field := by
  unfold Field.form? at hInner
  split at hInner <;> cases hInner <;> simp +arith

/-- What passes from the forms in the fields of a token to the token holds of all forms. -/
@[elab_as_elim]
theorem fields_induction {motive : Form → Prop}
    (step : ∀ form : Form, (∀ field ∈ form.fields, ∀ inner,
      field.2.form? = some inner → motive inner) → motive form)
    (form : Form) : motive form :=
  step form fun _ hField inner hInner =>
    have := Nat.lt_of_lt_of_le (Field.sizeOf_lt hInner) (sizeOf_field_le hField)
    fields_induction step inner
termination_by sizeOf form

end Token

end LispReader
