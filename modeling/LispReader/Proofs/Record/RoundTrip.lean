import LispReader.Proofs.Record.Decode
import LispReader.Proofs.Record.Stack

/-!
Writing a form as a record and reading it back. The two writers come together here: without lines a
form is written from a stack, and with them by going down, where its entries may be sorted besides.
Either way its text denotes a value that is the record of the form, whatever spaces stand in it and
in whatever order its entries come.
-/

namespace LispReader

namespace Record

open Decimal (IsShort)
open Json (Layout Options Denotes IsBlank Around floatFormat)

/-- The fields of a form hold what belongs there: whole numbers that are not too long, doubles that
are numbers, and texts. -/
inductive WellTyped : Form → Prop
  | integer {value : Int} (hValue : IsShort value) : WellTyped (.integer (.int value))
  | float {x : Float} (hNumber : x.isNaN = false) : WellTyped (.float (.float x))
  | rational {numerator denominator : Int} (hNumerator : IsShort numerator)
      (hDenominator : IsShort denominator) :
      WellTyped (.rational (.int numerator) (.int denominator))
  | string (text : String) : WellTyped (.string (.text text))
  | symbol (name : String) : WellTyped (.symbol (.text name))
  | nil : WellTyped .nil
  | emptyList : WellTyped .emptyList
  | cons {head tail : Form} (hHead : WellTyped head) (hTail : WellTyped tail) :
      WellTyped (.cons head tail)
  | listStart : WellTyped .listStart
  | listEnd : WellTyped .listEnd
  | dot : WellTyped .dot
  | comment {depth : Int} (hDepth : IsShort depth) (text : String) :
      WellTyped (.comment (.int depth) (.text text))
  | quotePrefix (operator : String) : WellTyped (.quotePrefix (.text operator))

/-- The text of a finite double is read as the double. -/
def RoundTrips (x : Float) : Prop :=
  x.isFinite = true → Decimal.readFloat? (floatFormat.text x).toList = some x

/-- A scalar whose text is read as the scalar. -/
inductive ReadsBack : Value → Prop
  | int {value : Int} (hValue : IsShort value) : ReadsBack (.int value)
  | float {x : Float} (hNumber : x.isNaN = false) (hRead : RoundTrips x) : ReadsBack (.float x)
  | text (text : String) : ReadsBack (.text text)

theorem ReadsBack.exists_write {layout : Layout} (hFinite : layout.finiteOnly = false)
    {value : Value} (hValue : ReadsBack value) (level : Nat) :
    ∃ text, Json.write layout level value = .ok text ∧ Denotes text.toList value := by
  cases hValue with
  | @int value hShort =>
      exact ⟨toString value, Json.writeInt_of_isShort hShort, Json.denotes_int hShort⟩
  | @float x hNumber hRead =>
      refine ⟨floatFormat.text x, ?_, Json.denotes_float hNumber hRead⟩
      simp [Json.write, Json.writeFloat, hFinite]
  | text text => exact ⟨layout.quote text, rfl, Json.denotes_quote layout.asciiOnly text⟩

namespace WellTyped

/-- What the fields of such a form hold are scalars that are read back, and such forms. -/
theorem fields {form : Form} (hForm : WellTyped form) (hFloats : ∀ x ∈ form.floats, RoundTrips x) :
    ∀ field ∈ form.fields, (∃ value, field.2 = .leaf value ∧ ReadsBack value) ∨
      ∃ child, field.2 = .child child ∧ WellTyped child ∧ ∀ x ∈ child.floats, RoundTrips x := by
  cases hForm with
  | nil | emptyList | listStart | listEnd | dot => simp [Token.fields]
  | string text | symbol text | quotePrefix text =>
      simpa [Token.fields] using ReadsBack.text text
  | integer hValue => simpa [Token.fields] using ReadsBack.int hValue
  | float hNumber =>
      have hRead := hFloats _ List.mem_cons_self
      simpa [Token.fields] using ReadsBack.float hNumber hRead
  | rational hNumerator hDenominator =>
      simpa [Token.fields] using ⟨ReadsBack.int hNumerator, ReadsBack.int hDenominator⟩
  | comment hDepth text =>
      simpa [Token.fields] using ⟨ReadsBack.int hDepth, ReadsBack.text text⟩
  | cons hHead hTail =>
      simp only [Token.floats, Token.numbers, List.filterMap_append, List.mem_append] at hFloats
      simpa [Token.fields] using
        ⟨⟨hHead, fun x hx => hFloats x (.inl hx)⟩, hTail, fun x hx => hFloats x (.inr hx)⟩

theorem isScalar_leaves {form : Form} (hForm : WellTyped form) :
    ∀ value ∈ form.leaves, value.isScalar = true := by
  induction hForm with
  | cons _ _ ihHead ihTail =>
      intro value hValue
      exact (List.mem_append.1 hValue).elim (ihHead value) (ihTail value)
  | _ => simp [Token.leaves, Value.leaves, Value.isScalar]

theorem nestsInCells {form : Form} (hForm : WellTyped form) : form.NestsInCells := by
  induction hForm with
  | cons _ _ ihHead ihTail => exact .cons ihHead ihTail
  | _ => exact .of_forall_form?_eq_none (by simp [Token.fields, Token.Field.form?])

end WellTyped

theorem exists_forall₂ {α β : Type} {R : α → β → Prop} {items : List α}
    (hItems : ∀ item ∈ items, ∃ b, R item b) : ∃ found, List.Forall₂ R items found := by
  induction items with
  | nil => exact ⟨[], .nil⟩
  | cons item rest ih =>
      obtain ⟨hItem, hRest⟩ := List.forall_mem_cons.1 hItems
      obtain ⟨b, hb⟩ := hItem
      obtain ⟨found, hFound⟩ := ih hRest
      exact ⟨b :: found, .cons hb hFound⟩

/-- In a layout that can be read, a form is written as a text that denotes a record of it. -/
theorem exists_writeToken {layout : Layout} (hReadable : layout.Readable)
    (hFinite : layout.finiteOnly = false) {form : Form} (hForm : WellTyped form)
    (hFloats : ∀ x ∈ form.floats, RoundTrips x) (level : Nat) :
    ∃ text value, Json.writeToken layout level form = .ok text ∧
      Denotes text.toList value ∧ Decodes value form := by
  induction form using Token.fields_induction generalizing level with
  | step form ih =>
      -- every field has an entry that its text denotes and that the decoder takes for the field
      have hFields : ∀ field ∈ form.fields, ∃ entry, FieldEntry field entry ∧
          Json.WrittenEntry (field.1, Json.writeField layout (level + 1) field.2) entry := by
        rintro ⟨name, held⟩ hField
        obtain ⟨value, rfl, hValue⟩ | ⟨child, rfl, hChild, hBelow⟩ :=
          hForm.fields hFloats _ hField
        · obtain ⟨text, hText, hDenotes⟩ := hValue.exists_write hFinite (level + 1)
          exact ⟨(name, value), ⟨rfl, rfl⟩, rfl, text, hText, hDenotes⟩
        · obtain ⟨text, value, hText, hDenotes, hDecodes⟩ :=
            ih _ hField child rfl hChild hBelow (level + 1)
          exact ⟨(name, value), ⟨rfl, hDecodes⟩, rfl, text, hText, hDenotes⟩
      obtain ⟨members, hMembers⟩ := exists_forall₂ hFields
      have hEntries : List.Forall₂ FieldEntry form.fields members :=
        hMembers.imp fun _ _ hMember => hMember.1
      have hKind : Json.WrittenEntry ("type", .ok (layout.quote form.kind.name))
          ("type", .text form.kind.name) :=
        ⟨rfl, _, rfl, Json.denotes_quote layout.asciiOnly form.kind.name⟩
      have hGiven : List.Forall₂ Json.WrittenEntry
          (form.fields.map fun field =>
            (field.1, Json.writeField layout (level + 1) field.2)) members :=
        List.forall₂_map_left_iff.2 (hMembers.imp fun _ _ hMember => hMember.2)
      have hNodup : ((("type", Value.text form.kind.name) :: members).map Prod.fst).Nodup := by
        rw [map_fst_recordEntries hEntries]
        exact nodup_keys form.kind
      obtain ⟨text, sorted, hText, hPerm, hDenotes⟩ :=
        Json.exists_writeObject hReadable level (.cons hKind hGiven) (by simp) hNodup
      refine ⟨text, .dict sorted, ?_, hDenotes, (RecordEntries.of_perm hEntries hPerm).decodes⟩
      rw [Json.writeToken_eq, hText]

/-- A text that denotes a record of a form is read as the form. -/
theorem read_of_denotes {text : List Char} {value : Value} {form : Form}
    (hDenotes : Denotes text value) (hDecodes : Decodes value form) : read text = .ok form := by
  have hForm : decode value = .ok form := by
    rw [decode]
    exact hDecodes []
  simp only [read, hDenotes.read_eq, hForm]

/-- Options under which a text can be read back: doubles are not refused, only spaces stand around
the comma and the colon of separators, and levels are indented by spaces. -/
structure ReadableOptions (options : Options) : Prop where
  finiteOnly : options.finiteOnly = false
  separators : ∀ item key, options.separators = some (item, key) →
    Around ',' item.toList ∧ Around ':' key.toList
  indent : ∀ unit, options.indent = some (.text unit) → IsBlank unit.toList

theorem ReadableOptions.layout {options : Options} (hOptions : ReadableOptions options) :
    options.layout.Readable := by
  have hBlank : IsBlank [' '] := by simp [IsBlank, Json.isSpace]
  refine ⟨?_, ?_, ?_⟩
  · cases hGiven : options.separators with
    | some given =>
        simpa [Options.layout, hGiven] using (hOptions.separators given.1 given.2 hGiven).1
    | none =>
        simp only [Options.layout, hGiven]
        split
        · exact ⟨[], [], by simp [IsBlank], by simp [IsBlank], rfl⟩
        · exact ⟨[], [' '], by simp [IsBlank], hBlank, rfl⟩
  · cases hGiven : options.separators with
    | some given =>
        simpa [Options.layout, hGiven] using (hOptions.separators given.1 given.2 hGiven).2
    | none =>
        simp only [Options.layout, hGiven]
        exact ⟨[], [' '], by simp [IsBlank], hBlank, rfl⟩
  · intro unit hUnit
    obtain ⟨indent, hIndent, rfl⟩ := Option.map_eq_some_iff.1 hUnit
    cases indent with
    | width count =>
        intro c hc
        simp only [Json.Indent.unit, String.toList_ofList, List.mem_replicate] at hc
        rw [hc.2]
        rfl
    | text unit => exact hOptions.indent unit hIndent

/-- A form with well-typed fields is read back from what is written for it, under all options that
keep the text readable. -/
theorem read_encode {options : Options} {form : Form} (hOptions : ReadableOptions options)
    (hForm : WellTyped form) (hFloats : ∀ x ∈ form.floats, RoundTrips x) (stepwise : Bool) :
    ∃ text, encode options (.token form) stepwise = .ok text ∧ read text.toList = .ok form := by
  obtain ⟨hItem, hKey, hUnit⟩ := hOptions.layout
  -- the two writers differ in sorting and in showing what they refuse, and neither matters
  obtain ⟨layout, hReadable, hFinite, hWritten⟩ : ∃ layout : Layout, layout.Readable ∧
      layout.finiteOnly = false ∧
      encode options (.token form) stepwise = Json.writeToken layout 0 form := by
    cases hIndent : options.indent with
    | none =>
        have hFits := fits_layout hIndent (.inl hForm.isScalar_leaves)
        refine ⟨inOrder options.layout, ⟨hItem, hKey, hUnit⟩, hOptions.finiteOnly, ?_⟩
        rw [encode_token hIndent,
          write_eq_writeToken (flat_inOrder_layout hIndent) rfl hForm.nestsInCells hFits]
    | some indent =>
        refine ⟨{ options.layout with showsRefused := stepwise || options.indent.isSome },
          ⟨hItem, hKey, hUnit⟩, hOptions.finiteOnly, ?_⟩
        simp only [encode, hIndent]
        rfl
  obtain ⟨text, value, hText, hDenotes, hDecodes⟩ :=
    exists_writeToken hReadable hFinite hForm hFloats 0
  exact ⟨text, hWritten.trans hText, read_of_denotes hDenotes hDecodes⟩

theorem read_encode_of_sorted_lines :
    let options : Options :=
      { separators := some (" ,", "\t:\n"), indent := some (.text " \t"), sortKeys := true }
    let form : Form :=
      .cons (.cons (.string (.text "𝄞\x00\"é\\")) (.float (.float (-1.5e-7))))
        (.cons (.comment (.int (-3)) (.text "")) (.float (.float (1.0 / 0.0))))
    ReadableOptions options ∧ WellTyped form ∧ (∀ x ∈ form.floats, RoundTrips x) ∧
      ∃ text, encode options (.token form) false = .ok text ∧ read text.toList = .ok form := by
  intro options form
  have hOptions : ReadableOptions options := by
    refine ⟨rfl, fun item key hGiven => ?_, fun unit hUnit => ?_⟩
    · cases hGiven
      exact ⟨⟨[' '], [], by simp [IsBlank, Json.isSpace], by simp [IsBlank], rfl⟩,
        ['\t'], ['\n'], by simp [IsBlank, Json.isSpace], by simp [IsBlank, Json.isSpace], rfl⟩
    · cases hUnit
      simp [IsBlank, Json.isSpace]
  have hForm : WellTyped form :=
    .cons (.cons (.string _) (.float (by decide +kernel)))
      (.cons (.comment (by decide) _) (.float (by decide +kernel)))
  have hFloats : ∀ x ∈ form.floats, RoundTrips x := by
    have hDoubles : form.floats = [-1.5e-7, 1.0 / 0.0] := rfl
    simp only [hDoubles, List.forall_mem_cons]
    exact ⟨fun _ => by decide +kernel, fun hFinite => absurd hFinite (by decide +kernel), by simp⟩
  exact ⟨hOptions, hForm, hFloats, read_encode hOptions hForm hFloats false⟩

end Record

end LispReader
