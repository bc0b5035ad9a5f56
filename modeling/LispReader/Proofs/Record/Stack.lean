import LispReader.Proofs.Decimal.Written
import LispReader.Proofs.Record.Nested

/-!
Writing from a stack is writing by going down. A stack stands for the row of texts that its pieces
have when each is written by itself, `writeRow`. Replacing a token on top by the pieces of its
record leaves that row as it is, so the loop over the stack writes it, `join_writePieces`: records
within records, with a layout of their own for plain values.

The two ways come upon numbers to refuse in different orders: the pieces of a record are made of all
its plain values at once, before a form among them is looked at. So the fault need not be the same
where a form stands in a field that is no cell's, `agreesUpTo_writeNested`. Where forms stand in
cells only, a record has either forms or plain values, and it is, `write_eq_writeNested`.
-/

namespace LispReader.Record

open LispReader.Json

/-- A layout that leaves the entries of objects in their order. -/
def inOrder (layout : Layout) : Layout :=
  { layout with sortKeys := false }

/-- The text of a piece that is written by itself. -/
def writePiece (layout : Layout) : Piece → Except WriteFault String
  | .fragment text => .ok text
  | .token form => writeNested (inOrder layout) (valueLayout layout) form

/-- The texts of pieces one behind the other, each written by itself. -/
def writeRow (layout : Layout) (pieces : List Piece) : Except WriteFault String :=
  String.join <$> pieces.mapM (writePiece layout)

theorem writeRow_append (layout : Layout) (first second : List Piece) :
    writeRow layout (first ++ second) = do
      let before ← writeRow layout first
      let behind ← writeRow layout second
      return before ++ behind := by
  simp [writeRow, List.mapM_append, String.join_append]

theorem writeRow_cons (layout : Layout) (piece : Piece) (rest : List Piece) :
    writeRow layout (piece :: rest) = do
      let before ← writePiece layout piece
      let behind ← writeRow layout rest
      return before ++ behind := by
  simp [writeRow, List.mapM_cons, String.join_cons]

theorem writeRow_singleton (layout : Layout) (piece : Piece) :
    writeRow layout [piece] = writePiece layout piece := by
  simp [writeRow, List.mapM_cons, String.join_cons]

theorem writeRow_fragment (layout : Layout) (text : String) (rest : List Piece) :
    writeRow layout (.fragment text :: rest) = (text ++ ·) <$> writeRow layout rest := by
  rw [writeRow_cons]
  rfl

theorem writePieces_fragment (layout : Layout) (text : String) (rest : List Piece) :
    writePieces layout (.fragment text :: rest) = (text :: ·) <$> writePieces layout rest := by
  rw [writePieces]

theorem writePieces_of_expand_eq_error {layout : Layout} {form : Form} {fault : WriteFault}
    (hFault : expand layout form = .error fault) (rest : List Piece) :
    writePieces layout (.token form :: rest) = .error fault := by
  rw [writePieces]
  split <;> simp_all

/-- A token on top of a stack is replaced by the pieces of its record. -/
theorem writePieces_of_expand_eq_ok {layout : Layout} {form : Form} {pieces : List Piece}
    (hPieces : expand layout form = .ok pieces) (rest : List Piece) :
    writePieces layout (.token form :: rest) = writePieces layout (pieces ++ rest) := by
  rw [writePieces]
  split <;> simp_all

theorem flat_valueLayout (layout : Layout) : (valueLayout layout).Flat :=
  ⟨rfl, rfl, rfl⟩

theorem fieldPiece_of_form? (layout : Layout) {field : Token.Field Value} {inner : Form}
    (hInner : field.form? = some inner) : fieldPiece layout field = .ok (.token inner) := by
  unfold Token.Field.form? at hInner
  split at hInner <;> cases hInner <;> rfl

theorem fieldPiece_of_form?_eq_none (layout : Layout) {value : Value}
    (hNone : (Token.Field.leaf value).form? = none) :
    fieldPiece layout (.leaf value) =
      Piece.fragment <$> Json.write (valueLayout layout) 0 value := by
  cases value with
  | token form => cases hNone
  | _ => rfl

theorem form?_of_mem_fieldPieces {layout : Layout} {field : String × Token.Field Value}
    {pieces : List Piece} {inner : Form} (hPieces : fieldPieces layout field = .ok pieces)
    (hInner : .token inner ∈ pieces) : field.2.form? = some inner := by
  obtain ⟨name, held⟩ := field
  cases hHeld : held.form? with
  | some form =>
      rw [fieldPieces, fieldPiece_of_form? layout hHeld] at hPieces
      cases hPieces
      obtain rfl : inner = form := by simpa using hInner
      rfl
  | none =>
      obtain ⟨value, rfl, -⟩ := Token.Field.eq_leaf_of_form?_eq_none hHeld
      rw [fieldPieces, fieldPiece_of_form?_eq_none layout hHeld] at hPieces
      cases hValue : Json.write (valueLayout layout) 0 value with
      | error fault =>
          rw [hValue] at hPieces
          cases hPieces
      | ok text =>
          rw [hValue] at hPieces
          cases hPieces
          simp at hInner

/-- The pieces of a record, given those of its fields. -/
def recordPieces (layout : Layout) (form : Form) (members : List (List Piece)) : List Piece :=
  .fragment ("\x7b" ++ layout.quote "type" ++ layout.keySeparator) ::
    .fragment (layout.quote form.kind.name) :: (members.flatten ++ [.fragment "\x7d"])

theorem expand_eq (layout : Layout) (form : Form) :
    expand layout form =
      recordPieces layout form <$> form.fields.mapM (fieldPieces layout) := by
  rw [expand]
  cases form.fields.mapM (fieldPieces layout) <;> rfl

theorem exists_of_expand_eq_ok {layout : Layout} {form : Form} {pieces : List Piece}
    (hPieces : expand layout form = .ok pieces) :
    ∃ members, form.fields.mapM (fieldPieces layout) = .ok members ∧
      pieces = recordPieces layout form members := by
  rw [expand_eq] at hPieces
  cases hFields : form.fields.mapM (fieldPieces layout) with
  | error fault =>
      rw [hFields] at hPieces
      cases hPieces
  | ok members =>
      rw [hFields] at hPieces
      cases hPieces
      exact ⟨members, rfl, rfl⟩

theorem exists_of_expand_eq_error {layout : Layout} {form : Form} {fault : WriteFault}
    (hFault : expand layout form = .error fault) :
    ∃ field ∈ form.fields, fieldPieces layout field = .error fault := by
  rw [expand_eq] at hFault
  cases hFields : form.fields.mapM (fieldPieces layout) with
  | error first =>
      rw [hFields] at hFault
      cases hFault
      exact exists_of_mapM_eq_error hFields
  | ok members =>
      rw [hFields] at hFault
      cases hFault

/-- The tokens among the pieces of a record stand in the fields of the token. -/
theorem form?_of_mem_expand {layout : Layout} {form inner : Form} {pieces : List Piece}
    (hPieces : expand layout form = .ok pieces) (hInner : .token inner ∈ pieces) :
    ∃ field ∈ form.fields, field.2.form? = some inner := by
  obtain ⟨members, hFields, rfl⟩ := exists_of_expand_eq_ok hPieces
  obtain ⟨member, hMember, hPiece⟩ : ∃ member ∈ members, .token inner ∈ member := by
    simpa [recordPieces] using hInner
  obtain ⟨field, hField, hOk⟩ := exists_of_mem_mapM hFields hMember
  exact ⟨field, hField, form?_of_mem_fieldPieces hOk hPiece⟩

/-- The piece of a field is written as what the field holds. -/
theorem writePiece_fieldPiece (layout : Layout) (field : Token.Field Value) :
    fieldPiece layout field >>= writePiece layout =
      nestedField (inOrder layout) (valueLayout layout) field := by
  cases hInner : field.form? with
  | some inner =>
      rw [fieldPiece_of_form? layout hInner, nestedField_of_form? hInner]
      rfl
  | none =>
      obtain ⟨value, rfl, -⟩ := Token.Field.eq_leaf_of_form?_eq_none hInner
      rw [fieldPiece_of_form?_eq_none layout hInner, nestedField_of_form?_eq_none hInner]
      cases Json.write (valueLayout layout) 0 value <;> rfl

/-- The pieces of a field are written as the member of the record. -/
theorem writeRow_fieldPieces (layout : Layout) (field : String × Token.Field Value) :
    fieldPieces layout field >>= writeRow layout =
      nestedMember (inOrder layout) (valueLayout layout) field := by
  rw [nestedMember, ← writePiece_fieldPiece, fieldPieces]
  cases fieldPiece layout field.2 with
  | error fault => rfl
  | ok piece =>
      change writeRow layout [_, piece] = _ <$> writePiece layout piece
      rw [writeRow_fragment, writeRow_singleton]
      rfl

section

variable {layout : Layout}

theorem writeRow_flatten {fields : List (String × Token.Field Value)} {pieces : List (List Piece)}
    (hPieces : fields.mapM (fieldPieces layout) = .ok pieces) :
    writeRow layout pieces.flatten =
      String.join <$> fields.mapM (nestedMember (inOrder layout) (valueLayout layout)) := by
  induction fields generalizing pieces with
  | nil =>
      cases hPieces
      rfl
  | cons field rest ih =>
      have hMember := writeRow_fieldPieces layout field
      obtain ⟨first, others, hFirst, hOthers, rfl⟩ := mapM_cons_eq_ok_iff.1 hPieces
      rw [hFirst] at hMember
      change writeRow layout first = _ at hMember
      rw [List.flatten_cons, writeRow_append, ih hOthers, List.mapM_cons, ← hMember]
      simp [String.join_cons]

/-- Taking a token apart into the pieces of its record leaves what is written as it is. -/
theorem writeRow_expand {form : Form} {pieces : List Piece}
    (hPieces : expand layout form = .ok pieces) :
    writeRow layout pieces = writeNested (inOrder layout) (valueLayout layout) form := by
  obtain ⟨members, hFields, rfl⟩ := exists_of_expand_eq_ok hPieces
  rw [writeNested_eq, recordPieces, writeRow_fragment, writeRow_fragment, writeRow_append,
    writeRow_flatten hFields]
  generalize form.fields.mapM (nestedMember (inOrder layout) (valueLayout layout)) = written
  cases written with
  | error fault => rfl
  | ok texts =>
      refine congrArg Except.ok ?_
      simp [recordText, inOrder, Layout.quote, String.append_assoc]

/-- If the record of a token cannot be taken apart, one of its numbers is refused, and the token
cannot be written. -/
theorem exists_writeNested_eq_error {form : Form} {fault : WriteFault}
    (hLeaves : ∀ value ∈ form.leaves, value.IsJson) (hFault : expand layout form = .error fault) :
    (valueLayout layout).Refuses form.numbers fault ∧
      ∃ other, writeNested (inOrder layout) (valueLayout layout) form = .error other := by
  have hFlat := flat_valueLayout layout
  obtain ⟨field, hField, hFirst⟩ := exists_of_expand_eq_error hFault
  have hMember := writeRow_fieldPieces layout field
  rw [hFirst] at hMember
  change Except.error fault = _ at hMember
  have hField' := Token.leaves_of_mem_fields hLeaves hField
  have hMemberFault :=
    (failsFor_nestedMember (inOrder layout) hFlat hField').of_error fault hMember.symm
  have hRefuses : (valueLayout layout).Refuses form.numbers fault := by
    rw [Token.numbers_eq, Layout.refuses_flatMap]
    exact ⟨field, hField, hMemberFault⟩
  exact ⟨hRefuses,
    (failsFor_writeNested (inOrder layout) hFlat hLeaves).exists_error fault hRefuses⟩

/-- The pieces of a plain value are written. -/
theorem exists_writeRow_fieldPieces {field : String × Token.Field Value} {pieces : List Piece}
    (hPlain : field.2.form? = none) (hPieces : fieldPieces layout field = .ok pieces) :
    ∃ text, writeRow layout pieces = .ok text := by
  obtain ⟨name, held⟩ := field
  obtain ⟨value, rfl, -⟩ := Token.Field.eq_leaf_of_form?_eq_none hPlain
  rw [fieldPieces, fieldPiece_of_form?_eq_none layout hPlain] at hPieces
  cases hValue : Json.write (valueLayout layout) 0 value with
  | error fault =>
      rw [hValue] at hPieces
      cases hPieces
  | ok text =>
      rw [hValue] at hPieces
      cases hPieces
      exact ⟨_, by rw [writeRow_fragment, writeRow_singleton]; rfl⟩

/-- Of plain values, the first one that is refused is the same for a record that is taken apart and
for one that is written. -/
theorem mapM_nestedMember_eq_error {fields : List (String × Token.Field Value)}
    {fault : WriteFault} (hPlain : ∀ field ∈ fields, field.2.form? = none)
    (hFault : fields.mapM (fieldPieces layout) = .error fault) :
    fields.mapM (nestedMember (inOrder layout) (valueLayout layout)) = .error fault := by
  induction fields with
  | nil => cases hFault
  | cons field rest ih =>
      obtain ⟨hField, hRest⟩ := List.forall_mem_cons.1 hPlain
      have hMember := writeRow_fieldPieces layout field
      rw [mapM_cons_eq_error_iff, ← hMember]
      obtain hFirst | ⟨⟨pieces, hPieces⟩, hOthers⟩ := mapM_cons_eq_error_iff.1 hFault
      · rw [hFirst]
        exact .inl rfl
      · obtain ⟨text, hText⟩ := exists_writeRow_fieldPieces hField hPieces
        rw [hPieces]
        exact .inr ⟨⟨text, hText⟩, ih hRest hOthers⟩

theorem expand_cons_ne_error (head tail : Form) (fault : WriteFault) :
    expand layout (.cons head tail) ≠ .error fault := by
  intro hFault
  obtain ⟨field, hField, hFirst⟩ := exists_of_expand_eq_error hFault
  obtain rfl | rfl : field = _ ∨ field = _ := by simpa [Token.fields] using hField
  all_goals cases hFirst

/-- Where forms stand in cells only, the fault is the same. -/
theorem writeNested_eq_error {form : Form} (hNests : form.NestsInCells) {fault : WriteFault}
    (hFault : expand layout form = .error fault) :
    writeNested (inOrder layout) (valueLayout layout) form = .error fault := by
  have hPlain : ∀ field ∈ form.fields, field.2.form? = none := by
    rintro ⟨name, held⟩ hField
    cases hNests with
    | fields hLeaves _ =>
        cases held with
        | leaf value => exact hLeaves name value hField
        | child child =>
            cases form with
            | cons head tail => exact absurd hFault (expand_cons_ne_error head tail fault)
            | _ => simp [Token.fields] at hField
  rw [expand_eq] at hFault
  cases hFields : form.fields.mapM (fieldPieces layout) with
  | ok members =>
      rw [hFields] at hFault
      cases hFault
  | error first =>
      rw [hFields] at hFault
      cases hFault
      rw [writeNested_eq, mapM_nestedMember_eq_error hPlain hFields]
      rfl

end

/-- Outcomes of which both are the same text, or both are faults and these stand in a relation. -/
inductive AgreesUpTo {α : Type} (r : WriteFault → WriteFault → Prop) :
    Except WriteFault α → Except WriteFault α → Prop
  | ok (a : α) : AgreesUpTo r (.ok a) (.ok a)
  | error {fault other : WriteFault} (hFaults : r fault other) :
      AgreesUpTo r (.error fault) (.error other)

namespace AgreesUpTo

variable {α β : Type} {r : WriteFault → WriteFault → Prop} {first second : Except WriteFault α}

theorem map (h : AgreesUpTo r first second) (f : α → β) :
    AgreesUpTo r (f <$> first) (f <$> second) := by
  cases h with
  | ok a => exact .ok (f a)
  | error hFaults => exact .error hFaults

/-- If one of the outcomes fails for certain faults and none of theirs is another one, both do. -/
theorem failsFor {p : WriteFault → Prop}
    (h : AgreesUpTo (fun fault other => p fault ∧ p other) first second)
    (hSecond : FailsFor second p) : FailsFor first p := by
  cases h with
  | ok a => exact hSecond
  | error hFaults => exact .error hFaults.1

theorem eq (h : AgreesUpTo r first second)
    (hFaults : ∀ fault other, r fault other → fault = other) : first = second := by
  cases h with
  | ok a => rfl
  | error hSame => rw [hFaults _ _ hSame]

end AgreesUpTo

section

variable {layout : Layout}

/-- The loop over a stack writes what its pieces are written as. If a form can neither be taken
apart nor written, the two faults are related as they are for every such form. -/
theorem join_writePieces {p : Form → Prop} {r : WriteFault → WriteFault → Prop}
    (hFields : ∀ form, p form → ∀ field ∈ form.fields, ∀ inner,
      field.2.form? = some inner → p inner)
    (hFaults : ∀ form fault, p form → expand layout form = .error fault →
      ∃ other, writeNested (inOrder layout) (valueLayout layout) form = .error other ∧
        r fault other)
    {pieces : List Piece} (hForms : ∀ form, .token form ∈ pieces → p form) :
    AgreesUpTo r (String.join <$> writePieces layout pieces) (writeRow layout pieces) := by
  -- along the recursion of the loop, whose stack may grow from one step to the next
  induction pieces using writePieces.induct layout with
  | case1 =>
      rw [writePieces]
      exact .ok _
  | case2 text rest ih =>
      have hRest :=
        (ih fun form hForm => hForms form (List.mem_cons_of_mem _ hForm)).map (text ++ ·)
      rw [writePieces_fragment, writeRow_fragment]
      simpa [String.join_cons] using hRest
  | case3 form rest fault hFault =>
      obtain ⟨other, hOther, hRelated⟩ := hFaults form fault (hForms form List.mem_cons_self) hFault
      rw [writePieces_of_expand_eq_error hFault, writeRow_cons, writePiece, hOther]
      exact .error hRelated
  | case4 form rest members hMembers ih =>
      have hForm := hForms form List.mem_cons_self
      have hRow : writeRow layout (.token form :: rest) = writeRow layout (members ++ rest) := by
        rw [writeRow_append, writeRow_cons, writePiece, writeRow_expand hMembers]
      rw [writePieces_of_expand_eq_ok hMembers, hRow]
      refine ih fun inner hInner => ?_
      obtain hMember | hRest := List.mem_append.1 hInner
      · obtain ⟨field, hField, hHeld⟩ := form?_of_mem_expand hMembers hMember
        exact hFields form hForm field hField inner hHeld
      · exact hForms inner (List.mem_cons_of_mem _ hRest)

/-- The loop for one form. -/
theorem agreesUpTo_write {p : Form → Prop} {r : WriteFault → WriteFault → Prop}
    (hFields : ∀ form, p form → ∀ field ∈ form.fields, ∀ inner,
      field.2.form? = some inner → p inner)
    (hFaults : ∀ form fault, p form → expand layout form = .error fault →
      ∃ other, writeNested (inOrder layout) (valueLayout layout) form = .error other ∧
        r fault other)
    {form : Form} (hForm : p form) :
    AgreesUpTo r (write layout form)
      (writeNested (inOrder layout) (valueLayout layout) form) := by
  have hStack : ∀ inner, .token inner ∈ [Piece.token form] → p inner := by
    intro inner hInner
    obtain rfl : inner = form := by simpa using hInner
    exact hForm
  have hAgrees := join_writePieces hFields hFaults hStack
  rw [writeRow_singleton] at hAgrees
  exact hAgrees

/-- Where forms stand in cells only, a form is written from a stack as it is by going down: its
records in the layout, in the order of their entries, and the plain values in their own one. -/
theorem write_eq_writeNested {form : Form} (hNests : form.NestsInCells) :
    write layout form = writeNested (inOrder layout) (valueLayout layout) form := by
  have hAgrees : AgreesUpTo (· = ·) (write layout form)
      (writeNested (inOrder layout) (valueLayout layout) form) :=
    agreesUpTo_write (fun _ hForm _ hField _ hInner => hForm.of_form? hField hInner)
      (fun _ fault hForm hFault => ⟨fault, writeNested_eq_error hForm hFault, rfl⟩) hNests
  exact hAgrees.eq fun _ _ hSame => hSame

/-- Wherever forms stand, the two ways write the same text, or else are both at fault for numbers of
the form. -/
theorem agreesUpTo_writeNested {form : Form} (hLeaves : ∀ value ∈ form.leaves, value.IsJson) :
    AgreesUpTo (fun fault other => (valueLayout layout).Refuses form.numbers fault ∧
        (valueLayout layout).Refuses form.numbers other) (write layout form)
      (writeNested (inOrder layout) (valueLayout layout) form) := by
  -- what is refused in a form inside of the form is refused in the form
  have hForm : (∀ value ∈ form.leaves, value.IsJson) ∧ form.numbers ⊆ form.numbers :=
    ⟨hLeaves, List.Subset.refl _⟩
  refine agreesUpTo_write
    (p := fun inner => (∀ value ∈ inner.leaves, value.IsJson) ∧ inner.numbers ⊆ form.numbers)
    ?_ ?_ hForm
  · rintro outer ⟨hOuter, hSubset⟩ field hField inner hInner
    refine ⟨Token.Field.leaves_of_form? hInner ▸ Token.leaves_of_mem_fields hOuter hField, ?_⟩
    rw [← Token.Field.numbers_of_form? hInner]
    refine List.Subset.trans (fun number hNumber => ?_) hSubset
    rw [Token.numbers_eq]
    exact List.mem_flatMap.2 ⟨field, hField, hNumber⟩
  · rintro inner fault ⟨hInner, hSubset⟩ hFault
    obtain ⟨hRefuses, other, hOther⟩ := exists_writeNested_eq_error hInner hFault
    have hOtherRefuses :=
      (failsFor_writeNested (inOrder layout) (flat_valueLayout layout) hInner).of_error other hOther
    exact ⟨other, hOther, hRefuses.mono hSubset, hOtherRefuses.mono hSubset⟩

end

/-- Whether a field may hold a plain value: a scalar in any layout, any value that JSON has a text
for in a layout with the usual separators. Behind the separators of a layout, the values in fields
are written with the usual ones. -/
def Fits (layout : Layout) (value : Value) : Prop :=
  value.isScalar = true ∨
    (layout.itemSeparator = ", " ∧ layout.keySeparator = ": ") ∧ value.IsJson

theorem Fits.isJson {layout : Layout} {value : Value} (hFits : Fits layout value) :
    value.IsJson :=
  hFits.elim .scalar And.right

section

variable {layout : Layout} (hFlat : (inOrder layout).Flat)
include hFlat

theorem write_valueLayout {value : Value} (hFits : Fits layout value) :
    Json.write (valueLayout layout) 0 value = Json.write (inOrder layout) 0 value := by
  have hAlike : (valueLayout layout).Alike (inOrder layout) :=
    ⟨rfl, rfl, hFlat.showsRefused.symm⟩
  obtain hScalar | ⟨⟨hItem, hKey⟩, hJson⟩ := hFits
  · exact write_scalar_congr hAlike hScalar 0 0
  · exact write_congr (flat_valueLayout layout) hFlat hAlike hItem.symm hKey.symm hJson 0 0

/-- Records in a layout of their own for plain values are those of the layout, if the plain values
fit in. -/
theorem writeNested_eq_writeToken (hRecords : layout.records = true) {form : Form}
    (hLeaves : ∀ value ∈ form.leaves, Fits layout value) :
    writeNested (inOrder layout) (valueLayout layout) form =
      writeToken (inOrder layout) 0 form := by
  have hJson : ∀ value ∈ form.leaves, value.IsJson := fun value hValue =>
    (hLeaves value hValue).isJson
  have hSame : ∀ value ∈ form.leaves,
      Json.write (valueLayout layout) 0 value = Json.write (inOrder layout) 0 value :=
    fun value hValue => write_valueLayout hFlat (hLeaves value hValue)
  rw [writeNested_congr _ hSame, writeNested_self hFlat hRecords hJson 0]

/-- A form is written from a stack as it is inside of a value, in the order of its entries. -/
theorem write_eq_writeToken (hRecords : layout.records = true) {form : Form}
    (hNests : form.NestsInCells) (hLeaves : ∀ value ∈ form.leaves, Fits layout value) :
    write layout form = writeToken (inOrder layout) 0 form := by
  rw [write_eq_writeNested hNests, writeNested_eq_writeToken hFlat hRecords hLeaves]

end

theorem flat_inOrder_layout {options : Options} (hIndent : options.indent = none) :
    (inOrder options.layout).Flat :=
  ⟨by simp [inOrder, Options.layout, hIndent], rfl, rfl⟩

theorem fits_layout {options : Options} {form : Form} (hIndent : options.indent = none)
    (hLeaves : (∀ value ∈ form.leaves, value.isScalar = true) ∨
      options.separators.getD (", ", ": ") = (", ", ": ") ∧ ∀ value ∈ form.leaves, value.IsJson) :
    ∀ value ∈ form.leaves, Fits options.layout value := by
  obtain hScalar | ⟨hSeparators, hJson⟩ := hLeaves
  · exact fun value hValue => .inl (hScalar value hValue)
  · refine fun value hValue => .inr ⟨?_, hJson value hValue⟩
    unfold Options.layout
    cases hGiven : options.separators with
    | none => simp [hIndent]
    | some given =>
        rw [hGiven] at hSeparators
        obtain rfl : given = (", ", ": ") := hSeparators
        exact ⟨rfl, rfl⟩

theorem encode_token {options : Options} (hIndent : options.indent = none) (form : Form)
    (stepwise : Bool) : encode options (.token form) stepwise = write options.layout form := by
  simp only [encode, hIndent]

/-- In a list, a form is written by going down. -/
theorem encode_singleton {options : Options} {form : Form} (hIndent : options.indent = none)
    (hFlat : options.layout.Flat) (hJson : ∀ value ∈ form.leaves, value.IsJson) :
    encode options (.list [.token form]) false =
      (fun text => "[" ++ text ++ "]") <$> writeToken options.layout 0 form := by
  have hList : encode options (.list [.token form]) false =
      Json.write options.layout 0 (.list [.token form]) := by
    simp only [encode, hIndent]
    rfl
  have hItem : Json.write options.layout 1 (.token form) = writeToken options.layout 0 form := by
    rw [writeToken_level hFlat hJson 0 1]
    rfl
  rw [hList, Json.write, writeAll_eq, List.mapM_cons, hItem]
  cases writeToken options.layout 0 form with
  | error fault => rfl
  | ok text =>
      refine congrArg Except.ok ?_
      rw [bracket_cons hFlat]
      simp

/-- Without lines and without sorting, a form that stands alone is written from a stack as it is
written in a list by going down: with any separators if its fields hold scalars, and with the usual
ones if they hold any values that JSON has a text for. Both are refused for the numbers of the form,
which are doubles that are not finite where only finite ones are allowed and whole numbers that are
too long. They are refused for the same one of these reasons, unless both are there and a form
stands in a field that is no cell's. -/
theorem encode_list_token {options : Options} {form : Form} (hIndent : options.indent = none)
    (hSort : options.sortKeys = false)
    (hLeaves : (∀ value ∈ form.leaves, value.isScalar = true) ∨
      options.separators.getD (", ", ": ") = (", ", ": ") ∧ ∀ value ∈ form.leaves, value.IsJson) :
    let alone := encode options (.token form) false
    let listed := encode options (.list [.token form]) false
    (∀ text, listed = .ok text ↔ ∃ inner, alone = .ok inner ∧ text = "[" ++ inner ++ "]") ∧
      FailsFor alone (options.layout.Refuses form.numbers) ∧
      FailsFor listed (options.layout.Refuses form.numbers) ∧
      (form.NestsInCells ∨ ¬(options.layout.Refuses form.numbers (.notFinite none) ∧
          options.layout.Refuses form.numbers .tooLong) →
        listed = (fun text => "[" ++ text ++ "]") <$> alone) := by
  intro alone listed
  have hFlat := flat_inOrder_layout hIndent
  have hFits := fits_layout hIndent hLeaves
  have hOrder : inOrder options.layout = options.layout := by
    simp [inOrder, Options.layout, hSort]
  have hJson : ∀ value ∈ form.leaves, value.IsJson := fun value hValue =>
    (hFits value hValue).isJson
  have hAlone : alone = write options.layout form := encode_token hIndent form false
  have hInside := writeNested_eq_writeToken hFlat rfl hFits
  have hAgrees := @agreesUpTo_writeNested options.layout form hJson
  have hFinite : (valueLayout options.layout).finiteOnly = options.layout.finiteOnly := rfl
  rw [hInside, ← hAlone, hOrder] at hAgrees
  simp only [Layout.refuses_congr hFinite] at hAgrees
  rw [hOrder] at hFlat
  have hToken := failsFor_writeToken hFlat rfl hJson 0
  have hListed : listed = (fun text => "[" ++ text ++ "]") <$> writeToken options.layout 0 form :=
    encode_singleton hIndent hFlat hJson
  refine ⟨fun text => ?_, hAgrees.failsFor hToken, hListed ▸ hToken.map _, ?_⟩
  · rw [hListed]
    generalize alone = first at hAgrees
    generalize writeToken options.layout 0 form = second at hAgrees
    cases hAgrees with
    | ok inner => simp [Functor.map, Except.map, eq_comm]
    | error => simp [Functor.map, Except.map]
  · rintro (hNests | hNot)
    · rw [hListed, hAlone, write_eq_writeToken (hOrder ▸ hFlat) rfl hNests hFits, hOrder]
    · rw [hListed, hAgrees.eq fun fault other hBoth => hBoth.1.eq_of_not_both hBoth.2 hNot]

/-- A double that is not finite is refused both ways, and a form without one is written both
ways. -/
theorem encode_list_token_of_infinite_tail :
    let options : Options :=
      { asciiOnly := false, separators := some ("; ", " -> "), finiteOnly := true }
    let infinite : Form :=
      .cons (.cons (.string (.text "é")) .emptyList)
        (.cons (.comment (.int 2) (.text "\t")) (.float (.float (-1.0 / 0.0))))
    let finite : Form := .cons (.string (.text "é")) .nil
    let text := "\x7b\"type\" -> \"Cons\"; \"head\" -> \x7b\"type\" -> \"String\"; " ++
      "\"value\" -> \"é\"\x7d; \"tail\" -> \x7b\"type\" -> \"Nil\"\x7d\x7d"
    (∀ value ∈ infinite.leaves, value.isScalar = true) ∧
      encode options (.token infinite) false = .error (.notFinite none) ∧
      encode options (.list [.token infinite]) false = .error (.notFinite none) ∧
      (∀ value ∈ finite.leaves, value.isScalar = true) ∧
      encode options (.token finite) false = .ok text ∧
      encode options (.list [.token finite]) false = .ok ("[" ++ text ++ "]") := by
  intro options infinite finite text
  have hInfinite : ∀ value ∈ infinite.leaves, value.isScalar = true := by
    simp [infinite, Token.leaves, Value.leaves, Value.isScalar]
  have hFinite : ∀ value ∈ finite.leaves, value.isScalar = true := by
    simp [finite, Token.leaves, Value.leaves, Value.isScalar]
  have hNumbers : infinite.numbers = [.whole 2, .real (-1.0 / 0.0)] := rfl
  have hRefuses : options.layout.Refuses infinite.numbers (.notFinite none) :=
    ⟨.real (-1.0 / 0.0), by simp [hNumbers], .notFinite rfl (by decide +kernel)⟩
  have hOnly (fault : WriteFault) (h : options.layout.Refuses infinite.numbers fault) :
      fault = .notFinite none := by
    refine h.eq_of_not_both hRefuses fun hBoth => ?_
    obtain ⟨value, hValue, hLong⟩ := options.layout.refuses_tooLong_iff.1 hBoth.2
    obtain rfl : value = 2 := by simpa [hNumbers] using hValue
    exact hLong (by decide)
  obtain ⟨-, hAlone, hListed, -⟩ := @encode_list_token options infinite rfl rfl (.inl hInfinite)
  obtain ⟨hWritten, -⟩ := @encode_list_token options finite rfl rfl (.inl hFinite)
  obtain ⟨first, hFirst⟩ := hAlone.exists_error _ hRefuses
  obtain ⟨second, hSecond⟩ := hListed.exists_error _ hRefuses
  obtain rfl := hOnly first (hAlone.of_error first hFirst)
  obtain rfl := hOnly second (hListed.of_error second hSecond)
  have hNests : finite.NestsInCells :=
    .cons (.of_forall_form?_eq_none (by simp [Token.fields, Token.Field.form?]))
      (.of_forall_form?_eq_none (by simp [Token.fields]))
  have hText : encode options (.token finite) false = .ok text := by
    rw [encode_token rfl, write_eq_writeNested hNests]
    decide +kernel
  exact ⟨hInfinite, hFirst, hSecond, hFinite, hText, (hWritten _).2 ⟨text, hText, rfl⟩⟩

theorem write_int_eq_error (layout : Layout) (level : Nat) {value : Int}
    (hLong : ¬Decimal.IsShort value) : Json.write layout level (.int value) = .error .tooLong := by
  rw [Json.write, writeInt, if_neg hLong]

/-- A form that cannot be taken apart is not written. -/
theorem encode_of_expand_eq_error {options : Options} (hIndent : options.indent = none)
    {form : Form} {fault : WriteFault} (hFault : expand options.layout form = .error fault)
    (stepwise : Bool) : encode options (.token form) stepwise = .error fault := by
  rw [encode_token hIndent, write, writePieces_of_expand_eq_error hFault]
  rfl

theorem encode_integer_eq_error {options : Options} (hIndent : options.indent = none) {value : Int}
    (hLong : ¬Decimal.IsShort value) (stepwise : Bool) :
    encode options (.token (.integer (.int value))) stepwise = .error .tooLong := by
  apply encode_of_expand_eq_error hIndent
  simp [expand, Token.fields, fieldPieces, fieldPiece, write_int_eq_error _ _ hLong, bind,
    Except.bind]

/-- Not every form is refused for a double only, and not every one for the same reason alone and in
a list. Here a whole number is too long, and in the second form a double that is refused stands in
front of it, but in a form of its own. -/
theorem encode_list_token_of_long_number :
    let long : Int := 10 ^ Decimal.digitLimit
    let mixed : Form := .rational (.token (.float (.float (1.0 / 0.0)))) (.int long)
    encode {} (.token (.integer (.int long))) false = .error .tooLong ∧
      encode { finiteOnly := true } (.token mixed) false = .error .tooLong ∧
      encode { finiteOnly := true } (.list [.token mixed]) false = .error (.notFinite none) := by
  intro long mixed
  have hLong : ¬Decimal.IsShort long := Decimal.not_isShort_ten_pow
  refine ⟨encode_integer_eq_error rfl hLong false, encode_of_expand_eq_error rfl ?_ false, ?_⟩
  · simp [expand, mixed, Token.fields, fieldPieces, fieldPiece, write_int_eq_error _ _ hLong, bind,
      Except.bind, pure, Except.pure]
  · decide +kernel

end LispReader.Record
