import LispReader.Proofs.Json.Origin
import LispReader.Proofs.Record.Recursion
import LispReader.Proofs.Record.RoundTrip

/-!
The record of a form as a value: an entry for the variant, then one for each field in order, and
nothing else. Writing the form and writing its record come to the same text, and the record is
decoded to the form. A text that is read to a form may have its entries in another order, or keys
that come again, or keys that nobody asks for; what is written for the form has the record alone.
-/

namespace LispReader

namespace Token

/-- The record of a form. -/
def record : Form → Value
  | .cons head tail =>
    .dict [("type", .text Kind.cons.name), ("head", head.record), ("tail", tail.record)]
  | form =>
    .dict (("type", .text form.kind.name) :: form.fields.filterMap fun field =>
      match field.2 with
      | .leaf value => some (field.1, value)
      | .child _ => none)

/-- What stands for a field in a record. -/
def Field.record : Field Value → Value
  | .leaf value => value
  | .child form => form.record

/-- The entries of the record of a form. -/
def entries (form : Form) : List (String × Value) :=
  ("type", .text form.kind.name) :: form.fields.map fun field => (field.1, field.2.record)

theorem record_eq (form : Form) : form.record = .dict form.entries := by
  cases form <;> rfl

theorem map_fst_entries (form : Form) : form.entries.map Prod.fst = form.recordKeys := by
  rw [entries, List.map_cons, List.map_map, recordKeys, ← map_fst_fields]
  rfl

end Token

namespace Record

open Json (Layout Options Legible)

/-- A value is the record of a form with the keys in order: the variant comes first, then come the
fields of the variant as it has them, and no other key. What stands under the fields is what the
form has there, and of the same order if that is a form. -/
inductive KeysInOrder : Form → Value → Prop
  | record {form : Form} {entries : List (String × Value)}
      (keys : entries.map Prod.fst = "type" :: form.kind.fieldNames)
      (variant : Entries.get? entries "type" = some (.text form.kind.name))
      (leaves : ∀ name held, (name, .leaf held) ∈ form.fields →
        Entries.get? entries name = some held)
      (children : ∀ name inner value, (name, .child inner) ∈ form.fields →
        Entries.get? entries name = some value → KeysInOrder inner value) :
      KeysInOrder form (.dict entries)

theorem get?_entries {form : Form} {field : String × Token.Field Value}
    (hField : field ∈ form.fields) :
    Entries.get? form.entries field.1 = some field.2.record := by
  have hNodup : (form.entries.map Prod.fst).Nodup := by
    rw [Token.map_fst_entries]
    exact nodup_keys form.kind
  exact Entries.get?_of_mem hNodup
    (List.mem_cons_of_mem _ (List.mem_map.2 ⟨field, hField, rfl⟩))

theorem inOrder_record (form : Form) : KeysInOrder form form.record := by
  induction form using Token.fields_induction with
  | step form ih =>
      rw [Token.record_eq]
      refine .record (Token.map_fst_entries form) rfl (fun name held hField => ?_)
        fun name inner value hField hValue => ?_
      · exact get?_entries hField
      · rw [get?_entries hField] at hValue
        cases hValue
        exact ih _ hField inner rfl

/-- The record of a form is decoded to the form. -/
theorem decodes_record (form : Form) : Decodes form.record form := by
  induction form using Token.fields_induction with
  | step form ih =>
      have hMembers : List.Forall₂ FieldEntry form.fields
          (form.fields.map fun field => (field.1, field.2.record)) := by
        rw [List.forall₂_map_right_iff, List.forall₂_same]
        rintro ⟨name, held⟩ hField
        cases held with
        | leaf value => exact ⟨rfl, rfl⟩
        | child inner => exact ⟨rfl, ih _ hField inner rfl⟩
      rw [Token.record_eq]
      exact (RecordEntries.of_perm hMembers (.refl _)).decodes

/-- In every layout a form is written as its record is. -/
theorem write_record (layout : Layout) (level : Nat) (form : Form) :
    Json.write layout level form.record = Json.writeToken layout level form := by
  induction form using Token.fields_induction generalizing level with
  | step form ih =>
      rw [Token.record_eq, Json.write, Json.writeEntries_eq, Json.writeToken_eq, Token.entries,
        List.map_cons, List.map_map]
      refine congrArg (Json.writeObject layout level) (congrArg _ (List.map_congr_left ?_))
      rintro ⟨name, held⟩ hField
      cases held with
      | leaf value => rfl
      | child inner => exact congrArg _ (ih _ hField inner rfl (level + 1))

theorem legible_record_iff {form : Form} :
    Legible form.record ↔ ∀ field ∈ form.fields, Legible field.2.record := by
  rw [Token.record_eq]
  constructor
  · intro h field hField
    exact (Json.legible_dict_iff.1 h).2 _
      (List.mem_cons_of_mem _ (List.mem_map.2 ⟨field, hField, rfl⟩))
  · intro h
    refine .dict ?_ (List.forall_mem_cons.2 ⟨.text _, List.forall_mem_map.2 h⟩)
    rw [Token.map_fst_entries]
    exact nodup_keys form.kind

/-- If the record of a form is legible, its fields hold nothing that there is no text for. -/
theorem isJson_leaves_of_legible {form : Form} (h : Legible form.record) :
    ∀ value ∈ form.leaves, value.IsJson := by
  induction form using Token.fields_induction with
  | step form ih =>
      intro value hValue
      rw [Token.leaves_eq] at hValue
      obtain ⟨⟨name, held⟩, hField, hMem⟩ := List.mem_flatMap.1 hValue
      have hHeld := legible_record_iff.1 h _ hField
      cases held with
      | child inner => exact ih _ hField inner rfl hHeld value hMem
      | leaf held =>
          have hSelf : held.leaves = [held] := by
            cases held with
            | token inner => cases hHeld
            | _ => rfl
          rw [Token.Field.leaves, hSelf, List.mem_singleton] at hMem
          exact hMem ▸ hHeld.isJson

/-- If the record of a form is legible, no form stands in a field for values. -/
theorem nestsInCells_of_legible {form : Form} (h : Legible form.record) : form.NestsInCells := by
  induction form using Token.fields_induction with
  | step form ih =>
      refine .fields (fun name value hField => ?_) fun name child hField => ?_
      · have hValue : Legible value := legible_record_iff.1 h _ hField
        cases hValue <;> rfl
      · exact ih _ hField child rfl (legible_record_iff.1 h _ hField)

theorem mem_of_get?_eq_some {entries : List (String × Value)} {key : String} {value : Value}
    (h : Entries.get? entries key = some value) : (key, value) ∈ entries := by
  obtain ⟨before, after, rfl, -⟩ := List.lookup_eq_some_iff.1 h
  simp

/-- A token without cells holds what stands under the names of its fields. -/
theorem fields_of_ofLeaves? {kind : Token.Kind} {value? : String → Option Value} {form : Form}
    (h : Token.ofLeaves? kind value? = some form) :
    ∀ field ∈ form.fields, ∃ value, field.2 = .leaf value ∧ value? field.1 = some value := by
  cases kind with
  | nil | emptyList | listStart | listEnd | dot =>
      cases h
      simp [Token.fields]
  | cons => cases h
  | integer | float | string | symbol | quotePrefix =>
      obtain ⟨value, hValue, h⟩ := Option.bind_eq_some_iff.1 h
      cases h
      simpa [Token.fields] using hValue
  | rational | comment =>
      obtain ⟨first, hFirst, h⟩ := Option.bind_eq_some_iff.1 h
      obtain ⟨second, hSecond, h⟩ := Option.bind_eq_some_iff.1 h
      cases h
      simpa [Token.fields] using ⟨hFirst, hSecond⟩

theorem ofLeaves?_of_decodeLeaf {kind : Token.Kind} {entries : List (String × Value)} {form : Form}
    (h : decodeLeaf kind entries = .ok form) :
    Token.ofLeaves? kind (Entries.get? entries) = some form := by
  unfold decodeLeaf at h
  split at h
  · cases h
  · split at h
    · next hForm =>
        cases h
        exact hForm
    · cases h

/-- A legible value has texts for keys only. -/
theorem eq_dict_of_legible {value : Value} (h : Legible value) {members : Members}
    (hMembers : members? value = some members) :
    value = .dict members.entries ∧ members.areAll = true := by
  cases h <;> cases hMembers
  exact ⟨rfl, rfl⟩

theorem legible_orNull {entries : List (String × Value)} (h : Legible (.dict entries))
    (key : String) : Legible (Entries.orNull entries key) := by
  unfold Entries.orNull
  cases hFound : Entries.get? entries key with
  | none => exact .null
  | some value =>
      exact (Json.legible_dict_iff.1 h).2 _ (mem_of_get?_eq_some hFound)

/-- What a legible value is decoded to has a legible record. -/
theorem legible_record_of_decode {value : Value} {form : Form} (h : Legible value)
    (hDecode : decode value = .ok form) : Legible form.record := by
  induction value using record_induction generalizing form with
  | other value hOther =>
      rw [decode_other hOther] at hDecode
      cases hDecode
  | record value members hMembers ihHead ihTail =>
      obtain ⟨rfl, hAll⟩ := eq_dict_of_legible h hMembers
      cases hKind : namedKind members.entries with
      | error fault =>
          rw [decode_of_error hMembers hKind] at hDecode
          cases hDecode
      | ok kind =>
          rw [legible_record_iff]
          by_cases hCons : kind = .cons
          · subst hCons
            obtain ⟨head, tail, hHead, hTail, rfl⟩ :=
              (decode_cons_eq_ok_iff hMembers hKind).1 hDecode
            simp only [Token.fields, List.forall_mem_cons]
            exact ⟨ihHead (legible_orNull h "head") hHead, ihTail (legible_orNull h "tail") hTail,
              by simp⟩
          · rw [decode_of_leaf hMembers hKind hCons, decodeMembers, if_pos hAll] at hDecode
            intro field hField
            obtain ⟨value, hLeaf, hValue⟩ :=
              fields_of_ofLeaves? (ofLeaves?_of_decodeLeaf hDecode) field hField
            rw [hLeaf]
            exact (Json.legible_dict_iff.1 h).2 _ (mem_of_get?_eq_some hValue)

/-- Without options a form with a legible record is written as its record is. -/
theorem encode_eq_write_record {form : Form} (h : Legible form.record) (stepwise : Bool) :
    encode {} (.token form) stepwise = Json.write {} 0 form.record := by
  have hFits : ∀ value ∈ form.leaves, Fits ({} : Options).layout value :=
    fits_layout rfl (.inr ⟨rfl, isJson_leaves_of_legible h⟩)
  rw [encode_token rfl,
    write_eq_writeToken (flat_inOrder_layout rfl) rfl (nestsInCells_of_legible h) hFits,
    write_record]
  rfl

/-- Whatever text a form is read from, what is written for the form is read to the form again, and
so written again as it stands. It is the text of one value, in which every record has the entries of
its form in order. -/
theorem exists_canonical_of_read {text : List Char} {form : Form} (hRead : read text = .ok form)
    (stepwise : Bool) :
    ∃ written value, encode {} (.token form) stepwise = .ok written ∧
      read written.toList = .ok form ∧ Json.read written.toList = .ok value ∧
      Json.write {} 0 value = .ok written ∧ KeysInOrder form value := by
  obtain ⟨value, hValue, hDecode⟩ := read_eq_ok_iff.1 hRead
  have hLegible := legible_record_of_decode (Json.legible_of_read hValue) hDecode
  obtain ⟨written, hWritten, hDenotes⟩ :=
    hLegible.exists_write Layout.readable_default rfl rfl 0
  refine ⟨written, form.record, ?_, read_of_denotes hDenotes (decodes_record form),
    hDenotes.read_eq, hWritten, inOrder_record form⟩
  rw [encode_eq_write_record hLegible, hWritten]

/-- Here the entries of a cell are in disorder, nobody asks for one of its keys, and a field holds
an object that looks like a record and has a double in it that is no number. -/
theorem exists_canonical_of_read_disordered :
    let text := ("\x7b\"tail\": \x7b\"type\": \"Nil\"\x7d, \"x\": 0, \"type\": \"Cons\", " ++
      "\"head\": \x7b\"value\": \x7b\"type\": NaN\x7d, \"type\": \"String\"\x7d\x7d").toList
    ∃ form, read text = .ok form ∧
      ∃ written value, encode {} (.token form) false = .ok written ∧
        read written.toList = .ok form ∧ Json.read written.toList = .ok value ∧
        Json.write {} 0 value = .ok written ∧ KeysInOrder form value := by
  intro text
  let held : Value := .dict [("type", .float (0.0 / 0.0))]
  let cell : List (String × Value) :=
    [("tail", .dict [("type", .text "Nil")]), ("x", .int 0), ("type", .text "Cons"),
      ("head", .dict [("value", held), ("type", .text "String")])]
  have hLegible : Legible (.dict cell) := by
    have hZero : Legible (.int 0) := .int (by decide)
    simp [cell, held, Json.legible_dict_iff, Legible.text, Legible.float, hZero]
  have hValue : Json.read text = .ok (.dict cell) := hLegible.read_of_write (by decide +kernel)
  have hInner : members? (Entries.orNull cell "head") =
      some ⟨[("value", held), ("type", .text "String")], true⟩ := rfl
  have hEnd : members? (Entries.orNull cell "tail") = some ⟨[("type", .text "Nil")], true⟩ := rfl
  have hHead : decode (Entries.orNull cell "head") = .ok (.string held) :=
    decode_of_leaf hInner (show namedKind _ = .ok .string from rfl) (by decide)
  have hTail : decode (Entries.orNull cell "tail") = .ok .nil :=
    decode_of_leaf hEnd (show namedKind _ = .ok .nil from rfl) (by decide)
  have hMembers : members? (.dict cell) = some ⟨cell, true⟩ := rfl
  have hDecode := (decode_cons_eq_ok_iff hMembers rfl).2 ⟨_, _, hHead, hTail, rfl⟩
  have hRead : read text = .ok (.cons (.string held) .nil) :=
    read_eq_ok_iff.2 ⟨_, hValue, hDecode⟩
  exact ⟨_, hRead, exists_canonical_of_read hRead false⟩

end Record

end LispReader
