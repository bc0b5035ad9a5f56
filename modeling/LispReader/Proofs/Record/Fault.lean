import LispReader.Proofs.Json.Legible
import LispReader.Proofs.Record.Recursion

/-!
Why a value is no record. A cell is a record of its own, and so is whatever stands under its head
and its tail. Decoding looks at these records one by one, a cell in front of its head and the head
in front of the tail, and ends at the first one that is at fault by itself. Every fault but one is
found by a check of the record. The variant is looked up under whatever stands in its place, and the
look-up breaks down on a list or an object.
-/

namespace LispReader.Record

open Json (Legible)

/-- The records that are decoded for a value, in order. -/
def records (value : Value) : List Value :=
  match _hMembers : members? value with
  | none => [value]
  | some members =>
    match namedKind members.entries with
    | .ok .cons =>
      value :: (records (Entries.orNull members.entries "head") ++
        records (Entries.orNull members.entries "tail"))
    | _ => [value]
termination_by sizeOf value
decreasing_by all_goals exact sizeOf_orNull_lt _hMembers _

/-- What a record is at fault for by itself, whatever its head and its tail are. -/
def fault? (value : Value) : Option DecodeFault :=
  match members? value with
  | none => some (.notObject value.typeName)
  | some members =>
    match namedKind members.entries with
    | .error fault => some fault
    | .ok .cons => none
    | .ok kind =>
      match decodeMembers kind members with
      | .error fault => some fault
      | .ok _ => none

/-- A list or an object stands in place of a variant's name. -/
def NamedByContainer (record : Value) : Prop :=
  ∃ members, members? record = some members ∧
    ((∃ items, Entries.get? members.entries "type" = some (.list items)) ∨
      ∃ held, Entries.get? members.entries "type" = some held ∧
        (members? held).isSome = true)

section Members

variable {value : Value} {members : Members} (hMembers : members? value = some members)
include hMembers

theorem records_of_cons (hKind : namedKind members.entries = .ok .cons) :
    records value = value :: (records (Entries.orNull members.entries "head") ++
      records (Entries.orNull members.entries "tail")) := by
  rw [records]
  split
  · next hNone => cases hMembers.symm.trans hNone
  · next found hFound =>
      obtain rfl := Option.some.inj (hMembers.symm.trans hFound)
      rw [hKind]

theorem records_of_ne_cons (hKind : namedKind members.entries ≠ .ok .cons) :
    records value = [value] := by
  rw [records]
  split
  · rfl
  · next found hFound =>
      obtain rfl := Option.some.inj (hMembers.symm.trans hFound)
      split
      · next hCons => exact absurd hCons hKind
      · rfl

end Members

/-- The first record at fault, if there is one, decides what becomes of a value. -/
theorem findSome?_fault? (value : Value) :
    (records value).findSome? fault? =
      match decode value with
      | .error fault => some fault
      | .ok _ => none := by
  induction value using record_induction with
  | other value hOther =>
      have hAlone : records value = [value] := by
        rw [records]
        split
        · rfl
        · next hMembers => cases hOther.symm.trans hMembers
      rw [decode_other hOther, hAlone]
      simp [fault?, hOther]
  | record value members hMembers ihHead ihTail =>
      cases hKind : namedKind members.entries with
      | error fault =>
          rw [records_of_ne_cons hMembers (by simp [hKind]), decode_of_error hMembers hKind]
          simp [fault?, hMembers, hKind]
      | ok kind =>
          by_cases hCons : kind = .cons
          · subst hCons
            rw [decode_of_cons hMembers hKind, records_of_cons hMembers hKind]
            simp only [List.findSome?_cons, fault?, hMembers, hKind, List.findSome?_append, ihHead,
              ihTail]
            cases decode (Entries.orNull members.entries "head") with
            | error fault => rfl
            | ok head => cases decode (Entries.orNull members.entries "tail") <;> rfl
          · rw [decode_of_leaf hMembers hKind hCons,
              records_of_ne_cons hMembers (by simpa [hKind] using hCons)]
            simp only [List.findSome?_singleton, fault?, hMembers, hKind]

/-- A value is no record for the fault of the first record in it that is at fault. -/
theorem decode_eq_error_iff {value : Value} {fault : DecodeFault} :
    decode value = .error fault ↔ ∃ before record after,
      records value = before ++ record :: after ∧ fault? record = some fault ∧
        ∀ earlier ∈ before, fault? earlier = none := by
  have hFirst := findSome?_fault? value
  rw [← List.findSome?_eq_some_iff, hFirst]
  cases decode value <;> simp

theorem exists_of_decodeLeaf_eq_error {kind : Token.Kind} {entries : List (String × Value)}
    {fault : DecodeFault} (h : decodeLeaf kind entries = .error fault) :
    ∃ flaw, fault = .badFields kind flaw := by
  unfold decodeLeaf at h
  split at h
  · cases h
    exact ⟨_, rfl⟩
  · split at h <;> cases h
    exact ⟨_, rfl⟩

/-- Once the variant of a record is known, the look-up of the variant has not broken down. -/
theorem fault?_ne_unhashable {kind : Token.Kind} {value : Value} {members : Members}
    (hMembers : members? value = some members) (hKind : namedKind members.entries = .ok kind)
    (typeName : String) : fault? value ≠ some (.unhashable typeName) := by
  intro hFault
  simp only [fault?, hMembers, hKind] at hFault
  split at hFault
  · next hError => cases hError
  · cases hFault
  · next named _ hNamed =>
      unfold decodeMembers at hFault
      split at hFault
      · next hLeaf =>
          cases hFault
          split at hLeaf
          · obtain ⟨flaw, hFlaw⟩ := exists_of_decodeLeaf_eq_error hLeaf
            cases hFlaw
          · cases hLeaf
      · cases hFault

theorem namedKind_eq_unhashable_iff {entries : List (String × Value)} :
    (∃ typeName, namedKind entries = .error (.unhashable typeName)) ↔
      (∃ items, Entries.get? entries "type" = some (.list items)) ∨
        ∃ held, Entries.get? entries "type" = some held ∧ (members? held).isSome = true := by
  unfold namedKind
  cases hNamed : Entries.get? entries "type" with
  | none => simp
  | some name =>
      cases name with
      | text name => cases hKind : Token.Kind.ofName? name <;> simp [hKind, members?]
      | _ => simp [members?]

/-- The look-up of the variant breaks down on a list or an object, and on nothing else. -/
theorem fault?_eq_unhashable_iff {record : Value} :
    (∃ typeName, fault? record = some (.unhashable typeName)) ↔ NamedByContainer record := by
  cases hMembers : members? record with
  | none => simp [fault?, NamedByContainer, hMembers]
  | some members =>
      simp only [NamedByContainer, hMembers, Option.some.injEq, exists_eq_left']
      rw [← namedKind_eq_unhashable_iff]
      cases hKind : namedKind members.entries with
      | error fault => simp [fault?, hMembers, hKind]
      | ok kind => simp [fault?_ne_unhashable hMembers hKind]

/-- Whether a text is refused for what was found in it. It is not if the look-up of a variant has
broken down. -/
def ReadFault.isRefusal : ReadFault → Bool
  | .record (.unhashable _) => false
  | _ => true

theorem ReadFault.isRefusal_eq_false_iff {fault : ReadFault} :
    fault.isRefusal = false ↔ ∃ typeName, fault = .record (.unhashable typeName) := by
  unfold isRefusal
  split <;> simp_all

/-- A text that is not read is refused, but for a value whose first record at fault has a list or an
object in place of its variant's name. Nothing else that stands in the value, at whatever depth of
heads and tails, keeps the text from being read or refused. -/
theorem read_refused_iff (text : List Char) :
    (∀ fault, read text = .error fault → fault.isRefusal = true) ↔
      ¬ ∃ value before record after, Json.read text = .ok value ∧
        records value = before ++ record :: after ∧ NamedByContainer record ∧
        ∀ earlier ∈ before, fault? earlier = none := by
  constructor
  · rintro h ⟨value, before, record, after, hValue, hRecords, hNamed, hBefore⟩
    obtain ⟨typeName, hFault⟩ := fault?_eq_unhashable_iff.mpr hNamed
    have hDecode := decode_eq_error_iff.mpr ⟨before, record, after, hRecords, hFault, hBefore⟩
    have hRefused := h _ (read_eq_record_error_iff.mpr ⟨value, hValue, hDecode⟩)
    cases hRefused
  · intro h fault hError
    cases hRefused : fault.isRefusal with
    | true => rfl
    | false =>
        obtain ⟨typeName, rfl⟩ := ReadFault.isRefusal_eq_false_iff.mp hRefused
        obtain ⟨value, hValue, hDecode⟩ := read_eq_record_error_iff.mp hError
        obtain ⟨before, record, after, hRecords, hFault, hBefore⟩ := decode_eq_error_iff.mp hDecode
        exact absurd ⟨value, before, record, after, hValue, hRecords,
          fault?_eq_unhashable_iff.mp ⟨typeName, hFault⟩, hBefore⟩ h

/-- Not every text that is not read is refused. The one here has a list in place of a name. -/
theorem not_forall_read_refused :
    ¬ ∀ text fault, read text = .error fault → fault.isRefusal = true := by
  intro h
  have hLegible : Legible (.dict [("type", .list [])]) :=
    .dict (by simp) (by simpa using .list (by simp))
  have hWritten : Json.write {} 0 (.dict [("type", .list [])]) = .ok "\x7b\"type\": []\x7d" := rfl
  have hMembers : members? (.dict [("type", .list [])]) = some ⟨[("type", .list [])], true⟩ := rfl
  have hDecode : decode (.dict [("type", .list [])]) = .error (.unhashable "list") :=
    decode_of_error hMembers rfl
  have hRefused := h "\x7b\"type\": []\x7d".toList (.record (.unhashable "list"))
    (by simp only [read, hLegible.read_of_write hWritten, hDecode])
  cases hRefused

end LispReader.Record
