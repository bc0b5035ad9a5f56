import Mathlib.Data.List.Forall2
import LispReader.Proofs.Json.Refusal

/-!
Values in one line. Where a layout has no lines, the level at which a value stands makes no
difference to its text, and a record is its variant and its members one behind the other.
-/

namespace LispReader.Json

variable {α β γ : Type}

theorem mapM_congr {items : List α} {f g : α → Except WriteFault β}
    (hItems : ∀ item ∈ items, f item = g item) : items.mapM f = items.mapM g := by
  induction items with
  | nil => rfl
  | cons item rest ih =>
      obtain ⟨hItem, hRest⟩ := List.forall_mem_cons.1 hItems
      rw [List.mapM_cons, List.mapM_cons, hItem, ih hRest]

theorem map_mapM (items : List α) (f : α → Except WriteFault β) (g : β → γ) :
    List.map g <$> items.mapM f = items.mapM fun item => g <$> f item := by
  induction items with
  | nil => rfl
  | cons item rest ih =>
      simp only [List.mapM_cons, ← ih, map_bind, bind_map_left, map_pure, List.map_cons]

theorem mapM_cons_eq_ok_iff {ε : Type} {item : α} {rest : List α} {f : α → Except ε β}
    {results : List β} :
    (item :: rest).mapM f = .ok results ↔
      ∃ first others, f item = .ok first ∧ rest.mapM f = .ok others ∧
        results = first :: others := by
  rw [List.mapM_cons]
  cases f item <;> cases rest.mapM f <;>
    simp [bind, Except.bind, pure, Except.pure, eq_comm]

/-- A traversal succeeds if it does at every item. -/
theorem mapM_eq_ok_iff_forall₂ {ε : Type} {items : List α} {f : α → Except ε β}
    {results : List β} :
    items.mapM f = .ok results ↔ List.Forall₂ (fun item b => f item = .ok b) items results := by
  induction items generalizing results with
  | nil => simp [pure, Except.pure, eq_comm]
  | cons item rest ih =>
      rw [mapM_cons_eq_ok_iff, List.forall₂_cons_left_iff]
      simp only [ih]

theorem mapM_cons_eq_error_iff {ε : Type} {item : α} {rest : List α} {f : α → Except ε β}
    {fault : ε} :
    (item :: rest).mapM f = .error fault ↔
      f item = .error fault ∨ (∃ first, f item = .ok first) ∧ rest.mapM f = .error fault := by
  rw [List.mapM_cons]
  cases f item <;> cases rest.mapM f <;> simp [bind, Except.bind, pure, Except.pure]

theorem exists_of_mapM_eq_error {ε : Type} {items : List α} {f : α → Except ε β}
    {fault : ε} (hError : items.mapM f = .error fault) :
    ∃ item ∈ items, f item = .error fault := by
  induction items with
  | nil => cases hError
  | cons item rest ih =>
      obtain hItem | ⟨-, hRest⟩ := mapM_cons_eq_error_iff.1 hError
      · exact ⟨item, List.mem_cons_self, hItem⟩
      · obtain ⟨other, hOther, hFault⟩ := ih hRest
        exact ⟨other, List.mem_cons_of_mem _ hOther, hFault⟩

theorem exists_of_mem_mapM {ε : Type} {items : List α} {f : α → Except ε β} {results : List β}
    (hResults : items.mapM f = .ok results) {b : β} (hMem : b ∈ results) :
    ∃ item ∈ items, f item = .ok b := by
  induction items generalizing results with
  | nil =>
      cases hResults
      cases hMem
  | cons item rest ih =>
      obtain ⟨first, others, hItem, hRest, rfl⟩ := mapM_cons_eq_ok_iff.1 hResults
      obtain rfl | hOther := List.mem_cons.1 hMem
      · exact ⟨item, List.mem_cons_self, hItem⟩
      · obtain ⟨other, hOther, hOk⟩ := ih hRest hOther
        exact ⟨other, List.mem_cons_of_mem _ hOther, hOk⟩

theorem intercalate_cons (separator first : String) (others : List String) :
    separator.intercalate (first :: others) =
      first ++ String.join (others.map (separator ++ ·)) := by
  induction others generalizing first with
  | nil => simp
  | cons second rest ih =>
      rw [String.intercalate_cons_cons, ih]
      simp [String.append_assoc]

/-- A field of a record, with the separator that stands between it and what comes before it. -/
def writeMember (layout : Layout) (level : Nat) (field : String × Token.Field Value) :
    Except WriteFault String :=
  (layout.itemSeparator ++ layout.quote field.1 ++ layout.keySeparator ++ ·) <$>
    writeField layout level field.2

/-- The variant that a record names, and its members behind it. -/
def recordText (layout : Layout) (kind : Token.Kind) (members : List String) : String :=
  "\x7b" ++ layout.quote "type" ++ layout.keySeparator ++ layout.quote kind.name ++
    String.join members ++ "\x7d"

/-- Layouts that escape the same characters and refuse the same doubles in the same way. -/
structure Layout.Alike (first second : Layout) : Prop where
  asciiOnly : first.asciiOnly = second.asciiOnly
  finiteOnly : first.finiteOnly = second.finiteOnly
  showsRefused : first.showsRefused = second.showsRefused

theorem Layout.Alike.refl (layout : Layout) : layout.Alike layout :=
  ⟨rfl, rfl, rfl⟩

variable {layout : Layout} (hFlat : layout.Flat)
include hFlat

theorem bracket_cons (level : Nat) (opening closing first : String) (others : List String) :
    layout.bracket level opening closing (first :: others) =
      opening ++ first ++ String.join (others.map (layout.itemSeparator ++ ·)) ++ closing := by
  simp [Layout.bracket, Layout.lineStart, hFlat.indent, intercalate_cons, String.append_assoc]

theorem writeToken_flat (level : Nat) (form : Form) :
    writeToken layout level form =
      recordText layout form.kind <$> form.fields.mapM (writeMember layout (level + 1)) := by
  have hMembers (field : String × Token.Field Value) :
      writeMember layout (level + 1) field = (layout.itemSeparator ++ ·) <$>
        writeEntry layout (field.1, writeField layout (level + 1) field.2) := by
    simp [writeMember, writeEntry, String.append_assoc]
  rw [writeToken_eq, writeObject_eq hFlat.sortKeys, List.mapM_cons, List.mapM_map,
    mapM_congr fun field _ => hMembers field, ← map_mapM]
  simp only [Function.comp_def]
  generalize (form.fields.mapM fun field =>
    writeEntry layout (field.1, writeField layout (level + 1) field.2)) = written
  cases written with
  | error fault => rfl
  | ok items =>
      refine congrArg Except.ok ?_
      rw [bracket_cons hFlat]
      simp [recordText, String.append_assoc]

omit hFlat in
theorem writeField_of_form? (hRecords : layout.records = true) (level : Nat)
    {field : Token.Field Value} {inner : Form} (hInner : field.form? = some inner) :
    writeField layout level field = writeToken layout level inner := by
  unfold Token.Field.form? at hInner
  split at hInner <;> cases hInner
  · rfl
  · simp [writeField, write, hRecords]

theorem failsFor_writeField (hRecords : layout.records = true) {level : Nat}
    {field : Token.Field Value} (hLeaves : ∀ value ∈ field.leaves, value.IsJson)
    (hForms : ∀ inner, field.form? = some inner →
      FailsFor (writeToken layout level inner) (layout.Refuses inner.numbers)) :
    FailsFor (writeField layout level field) (layout.Refuses field.numbers) := by
  cases hInner : field.form? with
  | some inner =>
      rw [writeField_of_form? hRecords level hInner, Token.Field.numbers_of_form? hInner]
      exact hForms inner hInner
  | none =>
      obtain ⟨value, rfl, hSelf⟩ := Token.Field.eq_leaf_of_form?_eq_none hInner
      exact failsFor_write hFlat (hLeaves value (by simp [Token.Field.leaves, hSelf])) level

theorem failsFor_writeToken (hRecords : layout.records = true) {form : Form}
    (hLeaves : ∀ value ∈ form.leaves, value.IsJson) (level : Nat) :
    FailsFor (writeToken layout level form) (layout.Refuses form.numbers) := by
  induction form using Token.fields_induction generalizing level with
  | step form ih =>
      rw [writeToken_flat hFlat, Token.numbers_eq]
      refine ((FailsFor.mapM fun field hField => FailsFor.map ?_ _).map _).congr fun fault =>
        (layout.refuses_flatMap ..).symm
      have hField' := Token.leaves_of_mem_fields hLeaves hField
      refine failsFor_writeField hFlat hRecords hField' fun inner hInner => ?_
      exact ih field hField inner hInner (Token.Field.leaves_of_form? hInner ▸ hField') _

omit hFlat in
/-- Scalars are written alike in layouts that treat characters and doubles alike. -/
theorem write_scalar_congr {first second : Layout} (hAlike : first.Alike second) {value : Value}
    (hScalar : value.isScalar = true) (level other : Nat) :
    write first level value = write second other value := by
  cases value <;> simp only [Value.isScalar, Bool.false_eq_true] at hScalar <;>
    simp [write, writeFloat, Layout.quote, hAlike.asciiOnly, hAlike.finiteOnly,
      hAlike.showsRefused]

/-- Values without forms are written alike, at any level, if the separators are the same too. -/
theorem write_congr {second : Layout} (hSecond : second.Flat) (hAlike : layout.Alike second)
    (hItem : layout.itemSeparator = second.itemSeparator)
    (hKey : layout.keySeparator = second.keySeparator) {value : Value} (hJson : value.IsJson)
    (level other : Nat) : write layout level value = write second other value := by
  have hBracket (level other : Nat) (opening closing : String) :
      layout.bracket level opening closing = second.bracket other opening closing := by
    funext items
    simp [Layout.bracket, Layout.lineStart, hFlat.indent, hSecond.indent, hItem]
  induction hJson generalizing level other with
  | scalar hScalar =>
      exact write_scalar_congr hAlike hScalar level other
  | list _ ih | tuple _ ih =>
      simp only [write, writeAll_eq, hBracket level other]
      exact congrArg _ (mapM_congr fun item hItem => ih item hItem _ _)
  | dict _ ih =>
      simp only [write, writeEntries_eq, writeObject_eq hFlat.sortKeys,
        writeObject_eq hSecond.sortKeys, hBracket level other, List.mapM_map]
      refine congrArg _ (mapM_congr fun entry hEntry => ?_)
      simp [writeEntry, Layout.quote, hAlike.asciiOnly, hKey, ih entry hEntry _ (other + 1)]

theorem writeToken_level {form : Form} (hLeaves : ∀ value ∈ form.leaves, value.IsJson)
    (level other : Nat) : writeToken layout level form = writeToken layout other form := by
  induction form using Token.fields_induction generalizing level other with
  | step form ih =>
      rw [writeToken_flat hFlat, writeToken_flat hFlat]
      refine congrArg _ (mapM_congr fun field hField => ?_)
      unfold writeMember
      refine congrArg _ ?_
      have hField' := Token.leaves_of_mem_fields hLeaves hField
      obtain ⟨name, held⟩ := field
      cases held with
      | child child => exact ih _ hField child rfl hField' _ _
      | leaf value =>
          cases value with
          | token inner =>
              -- refused at every level, if tokens are not written
              simp only [writeField, write]
              rw [ih _ hField inner rfl hField' _ (other + 1)]
          | _ =>
              exact write_congr hFlat hFlat (.refl layout) rfl rfl
                (hField' _ List.mem_cons_self) (level + 1) (other + 1)

end LispReader.Json
