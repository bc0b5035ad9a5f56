import LispReader.Proofs.Record.Canonical

/-!
How far separators reach. A form that was read from a text may hold any value of JSON in a field,
also one with items and keys of its own. Inside of a list it is written with the same separators
everywhere. Alone it is not: its records have the separators that are asked for, at every depth of
heads and tails, and the values in its fields have the usual ones.
-/

namespace LispReader.Record

open Json (Options Legible WriteFault)

/-- A form that was read from a text has a record that a text can be read to. -/
theorem legible_record_of_read {text : List Char} {form : Form} (hRead : read text = .ok form) :
    Legible form.record := by
  obtain ⟨value, hValue, hDecode⟩ := read_eq_ok_iff.mp hRead
  exact legible_record_of_decode (Json.legible_of_read hValue) hDecode

/-- Its whole numbers are not too long. -/
theorem isShort_of_legible {form : Form} (h : Legible form.record) {n : Int}
    (hMem : .whole n ∈ form.numbers) : Decimal.IsShort n := by
  induction form using Token.fields_induction with
  | step form ih =>
      rw [Token.numbers_eq] at hMem
      obtain ⟨⟨name, held⟩, hField, hNumber⟩ := List.mem_flatMap.mp hMem
      have hHeld := legible_record_iff.mp h _ hField
      cases held with
      | leaf value => exact Legible.isShort hHeld hNumber
      | child child => exact ih _ hField child rfl hHeld hNumber

/-- A form that was read is written with the separators of the options between and within its
records, and with the usual ones in the values of its fields. In a list it is written with those of
the options all over, so the two texts are the same wherever the plain values are written alike. It
is refused for nothing but a double. -/
theorem encode_of_read {text : List Char} {form : Form} (hRead : read text = .ok form)
    {options : Options} (hIndent : options.indent = none) (hSort : options.sortKeys = false) :
    encode options (.token form) false =
        writeNested options.layout (valueLayout options.layout) form ∧
      encode options (.list [.token form]) false =
        (fun written => "[" ++ written ++ "]") <$>
          writeNested options.layout options.layout form ∧
      ((∀ value ∈ form.leaves, Json.write (valueLayout options.layout) 0 value =
          Json.write options.layout 0 value) →
        encode options (.list [.token form]) false =
          (fun written => "[" ++ written ++ "]") <$> encode options (.token form) false) ∧
      ∀ fault, encode options (.token form) false = .error fault ↔
        fault = .notFinite none ∧ options.finiteOnly = true ∧
          ∃ x ∈ form.floats, x.isFinite = false := by
  have hLegible := legible_record_of_read hRead
  have hJson := isJson_leaves_of_legible hLegible
  have hNests := nestsInCells_of_legible hLegible
  have hOrder : inOrder options.layout = options.layout := by
    simp [inOrder, Options.layout, hSort]
  have hFlat : options.layout.Flat := hOrder ▸ flat_inOrder_layout hIndent
  have hAlone : encode options (.token form) false =
      writeNested options.layout (valueLayout options.layout) form := by
    rw [encode_token hIndent, write_eq_writeNested hNests, hOrder]
  have hInList : encode options (.list [.token form]) false =
      (fun written => "[" ++ written ++ "]") <$>
        writeNested options.layout options.layout form := by
    rw [encode_singleton hIndent hFlat hJson, writeNested_self hFlat rfl hJson 0]
  refine ⟨hAlone, hInList, ?_, ?_⟩
  · intro hSame
    rw [hInList, hAlone, writeNested_congr _ hSame]
  · intro fault
    have hShort : ¬(valueLayout options.layout).Refuses form.numbers .tooLong := by
      intro hRefuses
      obtain ⟨n, hNumber, hLong⟩ := (valueLayout options.layout).refuses_tooLong_iff.mp hRefuses
      exact hLong (isShort_of_legible hLegible hNumber)
    rw [hAlone]
    exact Json.Layout.eq_error_iff_of_not_tooLong
      (failsFor_writeNested options.layout (flat_valueLayout options.layout) hJson) hShort

/-- A record whose field holds an object with an array in it. -/
def containerText : List Char :=
  "\x7b\"type\": \"Integer\", \"value\": \x7b\"a\": [1, 2]\x7d\x7d".toList

theorem read_containerText :
    read containerText = .ok (.integer (.dict [("a", .list [.int 1, .int 2])])) := by
  have hOne : Legible (.int 1) := .int (by decide)
  have hTwo : Legible (.int 2) := .int (by decide)
  have hItems : Legible (.list [.int 1, .int 2]) := .list (by simp [hOne, hTwo])
  have hLegible : Legible (.dict [("type", .text "Integer"),
      ("value", .dict [("a", .list [.int 1, .int 2])])]) := by
    simp [Json.legible_dict_iff, Legible.text, hItems]
  apply read_eq_ok_iff.mpr
  refine ⟨_, hLegible.read_of_write (by decide +kernel), ?_⟩
  have hMembers : members? (.dict [("type", .text "Integer"),
      ("value", .dict [("a", .list [.int 1, .int 2])])]) =
      some ⟨[("type", .text "Integer"), ("value", .dict [("a", .list [.int 1, .int 2])])], true⟩ :=
    rfl
  exact decode_of_leaf hMembers (show namedKind _ = .ok .integer from rfl) (by decide)

theorem encode_of_read_container :
    let form : Form := .integer (.dict [("a", .list [.int 1, .int 2])])
    let options : Options := { separators := some (",", ":") }
    read containerText = .ok form ∧ options.indent = none ∧ options.sortKeys = false ∧
      encode options (.token form) false =
        writeNested options.layout (valueLayout options.layout) form ∧
      encode options (.list [.token form]) false =
        (fun written => "[" ++ written ++ "]") <$>
          writeNested options.layout options.layout form ∧
      ((∀ value ∈ form.leaves, Json.write (valueLayout options.layout) 0 value =
          Json.write options.layout 0 value) →
        encode options (.list [.token form]) false =
          (fun written => "[" ++ written ++ "]") <$> encode options (.token form) false) ∧
      ∀ fault, encode options (.token form) false = .error fault ↔
        fault = .notFinite none ∧ options.finiteOnly = true ∧
          ∃ x ∈ form.floats, x.isFinite = false := by
  intro form options
  exact ⟨read_containerText, rfl, rfl, encode_of_read read_containerText rfl rfl⟩

/-- Not every form that was read is written with the same separators alone and in a list. -/
theorem not_forall_encode_singleton :
    ¬ ∀ (text : List Char) (form : Form) (options : Options), read text = .ok form →
      options.indent = none → options.sortKeys = false →
      encode options (.list [.token form]) false =
        (fun written => "[" ++ written ++ "]") <$> encode options (.token form) false := by
  intro h
  have hSame := h _ _ { separators := some (",", ":") } read_containerText rfl rfl
  rw [encode_token rfl, write_eq_writeNested
    (nestsInCells_of_legible (legible_record_of_read read_containerText))] at hSame
  revert hSame
  decide +kernel

end LispReader.Record
