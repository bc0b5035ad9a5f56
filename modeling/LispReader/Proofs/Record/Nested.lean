import LispReader.Proofs.Json.Flat
import LispReader.Record.Writer

/-!
Records in one line, within each other. A form is written along its structure: it is a record, and
so is every form inside of it, while the plain values in the fields have a layout of their own.
`writeNested` takes both layouts.

If they are the same, this is how a form is written inside of a value. The second layout makes no
difference where it makes none to the plain values.
-/

namespace LispReader.Record

open LispReader.Json

/-- The record of a variant, given the texts of its fields. -/
def writeFlat (layout : Layout) (kind : Token.Kind) (texts : List (Except WriteFault String)) :
    Except WriteFault String :=
  recordText layout kind <$> (kind.fieldNames.zip texts).mapM fun (name, text) =>
    (layout.itemSeparator ++ layout.quote name ++ layout.keySeparator ++ ·) <$> text

mutual

/-- The texts of the fields of a token. -/
def fieldTexts (records values : Layout) : Form → List (Except WriteFault String)
  | .integer value | .float value | .string value | .symbol value | .quotePrefix value =>
    [valueText records values value]
  | .rational first second | .comment first second =>
    [valueText records values first, valueText records values second]
  | .cons head tail =>
    [writeFlat records head.kind (fieldTexts records values head),
      writeFlat records tail.kind (fieldTexts records values tail)]
  | .nil | .emptyList | .listStart | .listEnd | .dot => []

/-- The text of a value in a field. A token that stands there is a record too. -/
def valueText (records values : Layout) : Value → Except WriteFault String
  | .token form => writeFlat records form.kind (fieldTexts records values form)
  | value => Json.write values 0 value

end

/-- A form as a record, with one layout for records and one for the values in their fields. -/
def writeNested (records values : Layout) (form : Form) : Except WriteFault String :=
  writeFlat records form.kind (fieldTexts records values form)

/-- What is written for a field. -/
def nestedField (records values : Layout) : Token.Field Value → Except WriteFault String
  | .leaf value => valueText records values value
  | .child form => writeNested records values form

/-- A field of a record, with the separator that stands between it and what comes before it. -/
def nestedMember (records values : Layout) (field : String × Token.Field Value) :
    Except WriteFault String :=
  (records.itemSeparator ++ records.quote field.1 ++ records.keySeparator ++ ·) <$>
    nestedField records values field.2

theorem writeNested_eq (records values : Layout) (form : Form) :
    writeNested records values form =
      recordText records form.kind <$> form.fields.mapM (nestedMember records values) := by
  cases form <;> rfl

theorem nestedField_of_form? {records values : Layout} {field : Token.Field Value} {inner : Form}
    (hInner : field.form? = some inner) :
    nestedField records values field = writeNested records values inner := by
  unfold Token.Field.form? at hInner
  split at hInner <;> cases hInner
  · rfl
  · rw [nestedField, valueText, writeNested]

theorem nestedField_of_form?_eq_none {records values : Layout} {value : Value}
    (hNone : (Token.Field.leaf value).form? = none) :
    nestedField records values (.leaf value) = Json.write values 0 value := by
  cases value with
  | token form => cases hNone
  | _ => simp [nestedField, valueText]

/-- A form is written alike in two layouts for plain values if every plain value in it is. -/
theorem writeNested_congr (records : Layout) {first second : Layout} {form : Form}
    (hLeaves : ∀ value ∈ form.leaves, Json.write first 0 value = Json.write second 0 value) :
    writeNested records first form = writeNested records second form := by
  induction form using Token.fields_induction with
  | step form ih =>
      rw [writeNested_eq, writeNested_eq]
      apply congrArg
      apply mapM_congr
      intro field hField
      rw [nestedMember, nestedMember]
      apply congrArg
      have hField' := Token.leaves_of_mem_fields hLeaves hField
      obtain ⟨name, held⟩ := field
      cases hInner : held.form? with
      | some inner =>
          rw [Token.Field.leaves_of_form? hInner] at hField'
          rw [nestedField_of_form? hInner, nestedField_of_form? hInner]
          exact ih _ hField inner hInner hField'
      | none =>
          obtain ⟨value, rfl, hSelf⟩ := Token.Field.eq_leaf_of_form?_eq_none hInner
          rw [nestedField_of_form?_eq_none hInner, nestedField_of_form?_eq_none hInner]
          exact hField' value (by simp [Token.Field.leaves, hSelf])

/-- With one layout a form is written as it is inside of a value. -/
theorem writeNested_self {layout : Layout} (hFlat : layout.Flat) (hRecords : layout.records = true)
    {form : Form} (hLeaves : ∀ value ∈ form.leaves, value.IsJson) (level : Nat) :
    writeNested layout layout form = writeToken layout level form := by
  induction form using Token.fields_induction generalizing level with
  | step form ih =>
      rw [writeNested_eq, writeToken_flat hFlat]
      apply congrArg
      apply mapM_congr
      intro field hField
      rw [nestedMember, writeMember]
      apply congrArg
      have hField' := Token.leaves_of_mem_fields hLeaves hField
      obtain ⟨name, held⟩ := field
      cases hInner : held.form? with
      | some inner =>
          rw [Token.Field.leaves_of_form? hInner] at hField'
          rw [nestedField_of_form? hInner, writeField_of_form? hRecords _ hInner]
          exact ih _ hField inner hInner hField' _
      | none =>
          obtain ⟨value, rfl, hSelf⟩ := Token.Field.eq_leaf_of_form?_eq_none hInner
          rw [nestedField_of_form?_eq_none hInner, writeField]
          have hJson := hField' value (by simp [Token.Field.leaves, hSelf])
          exact write_congr hFlat hFlat (.refl layout) rfl rfl hJson 0 (level + 1)

section

variable (records : Layout) {values : Layout} (hFlat : values.Flat)
include hFlat

theorem failsFor_nestedField {field : Token.Field Value}
    (hLeaves : ∀ value ∈ field.leaves, value.IsJson)
    (hForms : ∀ inner, field.form? = some inner →
      FailsFor (writeNested records values inner) (values.Refuses inner.numbers)) :
    FailsFor (nestedField records values field) (values.Refuses field.numbers) := by
  cases hInner : field.form? with
  | some inner =>
      rw [nestedField_of_form? hInner, Token.Field.numbers_of_form? hInner]
      exact hForms inner hInner
  | none =>
      obtain ⟨value, rfl, hSelf⟩ := Token.Field.eq_leaf_of_form?_eq_none hInner
      rw [nestedField_of_form?_eq_none hInner]
      exact failsFor_write hFlat (hLeaves value (by simp [Token.Field.leaves, hSelf])) 0

/-- Whether a form is refused is up to the layout of the values. -/
theorem failsFor_writeNested {form : Form} (hLeaves : ∀ value ∈ form.leaves, value.IsJson) :
    FailsFor (writeNested records values form) (values.Refuses form.numbers) := by
  induction form using Token.fields_induction with
  | step form ih =>
      rw [writeNested_eq, Token.numbers_eq]
      refine ((FailsFor.mapM fun field hField => FailsFor.map ?_ _).map _).congr fun fault =>
        (values.refuses_flatMap ..).symm
      have hField' := Token.leaves_of_mem_fields hLeaves hField
      apply failsFor_nestedField records hFlat hField'
      intro inner hInner
      rw [Token.Field.leaves_of_form? hInner] at hField'
      exact ih field hField inner hInner hField'

theorem failsFor_nestedMember {field : String × Token.Field Value}
    (hLeaves : ∀ value ∈ field.2.leaves, value.IsJson) :
    FailsFor (nestedMember records values field) (values.Refuses field.2.numbers) := by
  apply FailsFor.map
  apply failsFor_nestedField records hFlat hLeaves
  intro inner hInner
  rw [Token.Field.leaves_of_form? hInner] at hLeaves
  exact failsFor_writeNested records hFlat hLeaves

end

end LispReader.Record
