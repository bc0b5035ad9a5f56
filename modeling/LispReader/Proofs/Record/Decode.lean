import LispReader.Proofs.Json.Object
import LispReader.Proofs.Record.Recursion

/-!
Reading the record of a token back. Its entries may stand in any order: the variant and the fields
are looked up by name, and nothing else is there. A record that stands at the end of a chain gives
its token behind the heads that have been read.
-/

namespace LispReader.Record

/-- A value is the record of a form: behind any heads, it gives the chain that ends in the form. -/
def Decodes (value : Value) (form : Form) : Prop :=
  ∀ heads, decodeChain heads value = .ok (Token.chain heads.reverse form)

/-- A value is what a record has for a field. -/
def FieldDecodes : Value → Token.Field Value → Prop
  | value, .leaf held => value = held
  | value, .child form => Decodes value form

/-- The entries of a token's record, in any order. -/
structure RecordEntries (form : Form) (entries : List (String × Value)) : Prop where
  nodup : (entries.map Prod.fst).Nodup
  keys : ∀ key ∈ entries.map Prod.fst, key = "type" ∨ key ∈ form.kind.fieldNames
  kind : Entries.get? entries "type" = some (.text form.kind.name)
  fields : ∀ field ∈ form.fields, ∃ value,
    Entries.get? entries field.1 = some value ∧ FieldDecodes value field.2

/-- A member of a record that stands for a field. -/
def FieldEntry (field : String × Token.Field Value) (entry : String × Value) : Prop :=
  field.1 = entry.1 ∧ FieldDecodes entry.2 field.2

theorem nodup_keys (kind : Token.Kind) : ("type" :: kind.fieldNames).Nodup := by
  cases kind <;> decide

theorem map_fst_eq {fields : List (String × Token.Field Value)} {entries : List (String × Value)}
    (hFields : List.Forall₂ FieldEntry fields entries) :
    entries.map Prod.fst = fields.map Prod.fst := by
  induction hFields with
  | nil => rfl
  | cons hField _ ih => rw [List.map_cons, List.map_cons, ih, hField.1]

theorem exists_of_mem_fields {fields : List (String × Token.Field Value)}
    {entries : List (String × Value)} (hFields : List.Forall₂ FieldEntry fields entries)
    {field : String × Token.Field Value} (hField : field ∈ fields) :
    ∃ entry ∈ entries, FieldEntry field entry := by
  induction hFields with
  | nil => cases hField
  | @cons first entry fields entries hFirst _ ih =>
      obtain rfl | hBehind := List.mem_cons.1 hField
      · exact ⟨entry, List.mem_cons_self, hFirst⟩
      · obtain ⟨other, hOther, hHolds⟩ := ih hBehind
        exact ⟨other, List.mem_cons_of_mem _ hOther, hHolds⟩

theorem map_fst_recordEntries {form : Form} {members : List (String × Value)}
    (hMembers : List.Forall₂ FieldEntry form.fields members) :
    (("type", Value.text form.kind.name) :: members).map Prod.fst = form.recordKeys := by
  rw [List.map_cons, map_fst_eq hMembers, Token.map_fst_fields, Token.recordKeys]

theorem RecordEntries.of_perm {form : Form} {entries members : List (String × Value)}
    (hMembers : List.Forall₂ FieldEntry form.fields members)
    (hPerm : entries.Perm (("type", .text form.kind.name) :: members)) :
    RecordEntries form entries := by
  have hKeys : (entries.map Prod.fst).Perm form.recordKeys := by
    rw [← map_fst_recordEntries hMembers]
    exact hPerm.map Prod.fst
  have hNodup : (entries.map Prod.fst).Nodup := hKeys.nodup_iff.2 (nodup_keys form.kind)
  refine ⟨hNodup, fun key hKey => ?_, ?_, fun field hField => ?_⟩
  · simpa [Token.recordKeys] using hKeys.subset hKey
  · exact Entries.get?_of_mem hNodup (hPerm.mem_iff.2 List.mem_cons_self)
  · obtain ⟨⟨name, value⟩, hEntry, hName, hDecodes⟩ := exists_of_mem_fields hMembers hField
    rw [hName]
    exact ⟨value, Entries.get?_of_mem hNodup (hPerm.mem_iff.2 (List.mem_cons_of_mem _ hEntry)),
      hDecodes⟩

theorem RecordEntries.namedKind {form : Form} {entries : List (String × Value)}
    (hEntries : RecordEntries form entries) : namedKind entries = .ok form.kind := by
  simp [Record.namedKind, hEntries.kind]

theorem RecordEntries.excess? {form : Form} {entries : List (String × Value)}
    (hEntries : RecordEntries form entries) : excess? form.kind entries = none := by
  simp only [Record.excess?, Option.map_eq_none_iff, List.find?_eq_none]
  intro entry hEntry
  have hKey := hEntries.keys entry.1 (List.mem_map_of_mem hEntry)
  simpa [or_iff_not_imp_left] using hKey

/-- A token without cells is made of the values under the names of its fields. -/
theorem ofLeaves?_of_fields {form : Form} (hKind : form.kind ≠ .cons)
    {value? : String → Option Value}
    (hFields : ∀ field ∈ form.fields, ∃ value, value? field.1 = some value ∧
      FieldDecodes value field.2) : Token.ofLeaves? form.kind value? = some form := by
  cases form <;> simp_all [Token.ofLeaves?, Token.fields, Token.kind, FieldDecodes]

theorem RecordEntries.decodeLeaf {form : Form} {entries : List (String × Value)}
    (hEntries : RecordEntries form entries) (hKind : form.kind ≠ .cons) :
    decodeLeaf form.kind entries = .ok form := by
  simp only [Record.decodeLeaf, hEntries.excess?, ofLeaves?_of_fields hKind hEntries.fields]

/-- A record gives its token. -/
theorem RecordEntries.decodes {form : Form} {entries : List (String × Value)}
    (hEntries : RecordEntries form entries) : Decodes (.dict entries) form := by
  intro heads
  have hMembers : members? (.dict entries) = some ⟨entries, true⟩ := rfl
  by_cases hKind : form.kind = .cons
  · -- the head is read by itself, and the tail behind it, with the head among the heads so far
    cases form <;> simp only [Token.kind, reduceCtorEq] at hKind
    next head tail =>
      obtain ⟨first, hHead, hFirst⟩ := hEntries.fields ("head", .child head) List.mem_cons_self
      obtain ⟨rest, hTail, hRest⟩ := hEntries.fields ("tail", .child tail) (by simp [Token.fields])
      have hDecode : decode first = .ok head := by
        rw [decode]
        exact hFirst []
      rw [decodeChain_of_cons hMembers heads hEntries.namedKind, Entries.orNull, Entries.orNull,
        hHead, hTail]
      simp only [Option.getD_some, hDecode, bind, Except.bind]
      rw [hRest (head :: heads)]
      simp [Token.chain]
  · rw [decodeChain_of_leaf hMembers heads hEntries.namedKind hKind]
    simp only [decodeMembers, if_true]
    rw [hEntries.decodeLeaf hKind]
    rfl

end LispReader.Record
