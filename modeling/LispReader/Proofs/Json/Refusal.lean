import LispReader.Json.Writer
import LispReader.Proofs.Value.Leaves

/-!
What keeps a value from being written. In a layout without lines, without sorting and without
showing what it refuses, a value that JSON has a text for is refused for its numbers only: a whole
number is too long, or the layout asks for finite doubles and there is another one somewhere in the
value. Of several such numbers the first one decides which fault it is.
-/

namespace LispReader.Json

variable {α β : Type} {p q : WriteFault → Prop}

/-- Writing fails for none but certain faults, and does fail if there is one of them. -/
structure FailsFor (written : Except WriteFault α) (p : WriteFault → Prop) : Prop where
  of_error : ∀ fault, written = .error fault → p fault
  exists_error : ∀ fault, p fault → ∃ first, written = .error first

namespace FailsFor

theorem ok (a : α) (hNot : ∀ fault, ¬p fault) : FailsFor (.ok a) p :=
  ⟨nofun, fun fault hFault => absurd hFault (hNot fault)⟩

theorem error {fault : WriteFault} (hFault : p fault) :
    FailsFor (.error fault : Except WriteFault α) p :=
  ⟨fun _ hError => Except.error.inj hError ▸ hFault, fun _ _ => ⟨fault, rfl⟩⟩

theorem congr {written : Except WriteFault α} (hWritten : FailsFor written p)
    (hIff : ∀ fault, p fault ↔ q fault) : FailsFor written q :=
  ⟨fun fault hError => (hIff fault).1 (hWritten.of_error fault hError),
    fun fault hFault => hWritten.exists_error fault ((hIff fault).2 hFault)⟩

theorem map {written : Except WriteFault α} (hWritten : FailsFor written p) (f : α → β) :
    FailsFor (f <$> written) p := by
  cases written with
  | error fault => exact error (hWritten.of_error fault rfl)
  | ok a =>
      refine ok (f a) fun fault hFault => ?_
      obtain ⟨first, hError⟩ := hWritten.exists_error fault hFault
      cases hError

theorem bind {written : Except WriteFault α} {next : α → Except WriteFault β}
    (hWritten : FailsFor written p) (hNext : ∀ a, FailsFor (next a) q) :
    FailsFor (written >>= next) fun fault => p fault ∨ q fault := by
  cases written with
  | error fault => exact error (.inl (hWritten.of_error fault rfl))
  | ok a =>
      refine ⟨fun fault hError => .inr ((hNext a).of_error fault hError), fun fault hFault => ?_⟩
      obtain hFault | hFault := hFault
      · obtain ⟨first, hError⟩ := hWritten.exists_error fault hFault
        cases hError
      · exact (hNext a).exists_error fault hFault

theorem mapM {items : List α} {write : α → Except WriteFault β} {p : α → WriteFault → Prop}
    (hItems : ∀ item ∈ items, FailsFor (write item) (p item)) :
    FailsFor (items.mapM write) fun fault => ∃ item ∈ items, p item fault := by
  induction items with
  | nil => exact ok _ (by simp)
  | cons item rest ih =>
      obtain ⟨hItem, hRest⟩ := List.forall_mem_cons.1 hItems
      rw [List.mapM_cons]
      refine (hItem.bind fun first => (ih hRest).map (first :: ·)).congr ?_
      simp

end FailsFor

/-- A layout that writes everything in one line and in the order in which it stands, and says
nothing of the doubles that it refuses. -/
structure Layout.Flat (layout : Layout) : Prop where
  indent : layout.indent = none
  sortKeys : layout.sortKeys = false
  showsRefused : layout.showsRefused = false

/-- Why a layout refuses a number. -/
inductive Layout.RefusesNumber (layout : Layout) : Number → WriteFault → Prop
  | notFinite {x : Float} (hOnly : layout.finiteOnly = true) (hInfinite : x.isFinite = false) :
      layout.RefusesNumber (.real x) (.notFinite none)
  | tooLong {value : Int} (hLong : ¬Decimal.IsShort value) :
      layout.RefusesNumber (.whole value) .tooLong

/-- Why a layout refuses one of some numbers. -/
def Layout.Refuses (layout : Layout) (numbers : List Number) (fault : WriteFault) : Prop :=
  ∃ number ∈ numbers, layout.RefusesNumber number fault

namespace Layout

variable (layout : Layout)

theorem refuses_notFinite_iff {numbers : List Number} :
    layout.Refuses numbers (.notFinite none) ↔ layout.finiteOnly = true ∧
      ∃ x ∈ numbers.filterMap Number.real?, x.isFinite = false := by
  constructor
  · rintro ⟨number, hNumber, hRefuses⟩
    cases hRefuses with
    | notFinite hOnly hInfinite =>
        exact ⟨hOnly, _, List.mem_filterMap.2 ⟨_, hNumber, rfl⟩, hInfinite⟩
  · rintro ⟨hOnly, x, hReal, hInfinite⟩
    obtain ⟨number, hNumber, hReal⟩ := List.mem_filterMap.1 hReal
    cases number with
    | whole value => cases hReal
    | real y =>
        cases hReal
        exact ⟨_, hNumber, .notFinite hOnly hInfinite⟩

theorem refuses_tooLong_iff {numbers : List Number} :
    layout.Refuses numbers .tooLong ↔ ∃ value, .whole value ∈ numbers ∧ ¬Decimal.IsShort value := by
  constructor
  · rintro ⟨number, hNumber, hRefuses⟩
    cases hRefuses with
    | tooLong hLong => exact ⟨_, hNumber, hLong⟩
  · rintro ⟨value, hNumber, hLong⟩
    exact ⟨_, hNumber, .tooLong hLong⟩

theorem Refuses.mono {layout : Layout} {numbers others : List Number} {fault : WriteFault}
    (h : layout.Refuses numbers fault) (hSubset : numbers ⊆ others) :
    layout.Refuses others fault := by
  obtain ⟨number, hNumber, hRefuses⟩ := h
  exact ⟨number, hSubset hNumber, hRefuses⟩

theorem RefusesNumber.of_finiteOnly {first second : Layout}
    (hFinite : first.finiteOnly = second.finiteOnly) {number : Number} {fault : WriteFault}
    (h : first.RefusesNumber number fault) : second.RefusesNumber number fault := by
  cases h with
  | notFinite hOnly hInfinite => exact .notFinite (hFinite ▸ hOnly) hInfinite
  | tooLong hLong => exact .tooLong hLong

theorem refuses_congr {first second : Layout} (hFinite : first.finiteOnly = second.finiteOnly)
    {numbers : List Number} {fault : WriteFault} :
    first.Refuses numbers fault ↔ second.Refuses numbers fault :=
  exists_congr fun _ => and_congr_right fun _ =>
    ⟨.of_finiteOnly hFinite, .of_finiteOnly hFinite.symm⟩

theorem Refuses.eq_or_eq {layout : Layout} {numbers : List Number} {fault : WriteFault}
    (h : layout.Refuses numbers fault) : fault = .notFinite none ∨ fault = .tooLong := by
  obtain ⟨number, -, h⟩ := h
  cases h with
  | notFinite => exact .inl rfl
  | tooLong => exact .inr rfl

/-- If only one sort of numbers that are refused is there, the fault is certain. -/
theorem Refuses.eq_of_not_both {layout : Layout} {numbers : List Number}
    {fault other : WriteFault} (hFault : layout.Refuses numbers fault)
    (hOther : layout.Refuses numbers other)
    (hNot : ¬(layout.Refuses numbers (.notFinite none) ∧ layout.Refuses numbers .tooLong)) :
    fault = other := by
  obtain rfl | rfl := hFault.eq_or_eq <;> obtain rfl | rfl := hOther.eq_or_eq
  · rfl
  · exact absurd ⟨hFault, hOther⟩ hNot
  · exact absurd ⟨hOther, hFault⟩ hNot
  · rfl

/-- If no whole number is too long, there is one fault only, that of a double. -/
theorem eq_error_iff_of_not_tooLong {layout : Layout} {numbers : List Number}
    {written : Except WriteFault α} (hWritten : FailsFor written (layout.Refuses numbers))
    (hShort : ¬layout.Refuses numbers .tooLong) {fault : WriteFault} :
    written = .error fault ↔ fault = .notFinite none ∧ layout.finiteOnly = true ∧
      ∃ x ∈ numbers.filterMap Number.real?, x.isFinite = false := by
  have hOnly (fault : WriteFault) (hRefuses : layout.Refuses numbers fault) :
      fault = .notFinite none :=
    hRefuses.eq_or_eq.resolve_right fun hFault => hShort (hFault ▸ hRefuses)
  rw [← layout.refuses_notFinite_iff]
  constructor
  · intro hError
    have hRefuses := hWritten.of_error fault hError
    obtain rfl := hOnly fault hRefuses
    exact ⟨rfl, hRefuses⟩
  · rintro ⟨rfl, hRefuses⟩
    obtain ⟨first, hError⟩ := hWritten.exists_error _ hRefuses
    rw [hError, hOnly first (hWritten.of_error first hError)]

theorem not_refuses_nil (fault : WriteFault) : ¬layout.Refuses [] fault := by
  simp [Refuses]

theorem refuses_singleton {number : Number} {fault : WriteFault} :
    layout.Refuses [number] fault ↔ layout.RefusesNumber number fault := by
  simp [Refuses]

theorem refuses_flatMap (items : List α) (numbers : α → List Number) (fault : WriteFault) :
    layout.Refuses (items.flatMap numbers) fault ↔
      ∃ item ∈ items, layout.Refuses (numbers item) fault := by
  simp only [Refuses, List.mem_flatMap]
  constructor
  · rintro ⟨number, ⟨item, hItem, hNumber⟩, hRefuses⟩
    exact ⟨item, hItem, number, hNumber, hRefuses⟩
  · rintro ⟨item, hItem, number, hNumber, hRefuses⟩
    exact ⟨number, ⟨item, hItem, hNumber⟩, hRefuses⟩

end Layout

theorem writeAll_eq (layout : Layout) (level : Nat) (items : List Value) :
    writeAll layout level items = items.mapM (write layout level) := by
  induction items with
  | nil => rfl
  | cons item rest ih => rw [List.mapM_cons, writeAll, ih]

theorem writeEntries_eq (layout : Layout) (level : Nat) (entries : List (String × Value)) :
    writeEntries layout level entries =
      entries.map fun entry => (entry.1, write layout level entry.2) := by
  induction entries with
  | nil => rfl
  | cons entry rest ih => rw [List.map_cons, writeEntries, ih]

theorem numbersOfAll_eq (items : List Value) :
    Value.numbersOfAll items = items.flatMap Value.numbers := by
  induction items with
  | nil => rfl
  | cons item rest ih => rw [List.flatMap_cons, Value.numbersOfAll, ih]

theorem numbersOfEntries_eq (entries : List (String × Value)) :
    Value.numbersOfEntries entries = entries.flatMap fun entry => entry.2.numbers := by
  induction entries with
  | nil => rfl
  | cons entry rest ih => rw [List.flatMap_cons, Value.numbersOfEntries, ih]

/-- What a field holds, at a level. -/
def writeField (layout : Layout) (level : Nat) : Token.Field Value → Except WriteFault String
  | .leaf value => write layout level value
  | .child form => writeToken layout level form

theorem writeToken_eq (layout : Layout) (level : Nat) (form : Form) :
    writeToken layout level form =
      writeObject layout level (("type", .ok (layout.quote form.kind.name)) ::
        form.fields.map fun field => (field.1, writeField layout (level + 1) field.2)) := by
  cases form <;> rfl

/-- An entry of an object, given its value as it has been written. -/
def writeEntry (layout : Layout) (entry : String × Except WriteFault String) :
    Except WriteFault String :=
  (layout.quote entry.1 ++ layout.keySeparator ++ ·) <$> entry.2

theorem writeObject_eq {layout : Layout} (hSort : layout.sortKeys = false) (level : Nat)
    (entries : List (String × Except WriteFault String)) :
    writeObject layout level entries =
      layout.bracket level "\x7b" "\x7d" <$> entries.mapM (writeEntry layout) := by
  unfold writeObject
  rw [hSort]
  rfl

theorem writeInt_of_isShort {value : Int} (hShort : Decimal.IsShort value) :
    writeInt value = .ok (toString value) :=
  if_pos hShort

theorem failsFor_writeInt (layout : Layout) (value : Int) :
    FailsFor (writeInt value) (layout.Refuses [.whole value]) := by
  unfold writeInt
  split
  · next hShort =>
      refine .ok _ fun fault hRefuses => ?_
      cases layout.refuses_singleton.1 hRefuses with
      | tooLong hLong => exact hLong hShort
  · next hLong => exact .error (layout.refuses_singleton.2 (.tooLong hLong))

variable {layout : Layout} (hFlat : layout.Flat)
include hFlat

theorem failsFor_writeFloat (x : Float) :
    FailsFor (writeFloat layout x) (layout.Refuses [.real x]) := by
  unfold writeFloat
  split
  · next hRefused =>
      rw [Bool.and_eq_true, Bool.not_eq_true'] at hRefused
      simp only [hFlat.showsRefused, Bool.false_eq_true, if_false]
      exact .error (layout.refuses_singleton.2 (.notFinite hRefused.1 hRefused.2))
  · next hWritten =>
      refine .ok _ fun fault hRefuses => hWritten ?_
      cases layout.refuses_singleton.1 hRefuses with
      | notFinite hOnly hInfinite => simp [hOnly, hInfinite]

/-- A value that JSON has a text for is refused for its numbers. -/
theorem failsFor_write {value : Value} (hJson : value.IsJson) (level : Nat) :
    FailsFor (write layout level value) (layout.Refuses value.numbers) := by
  induction hJson generalizing level with
  | @scalar value hScalar =>
      cases value <;> simp only [Value.isScalar, Bool.false_eq_true] at hScalar
      case int value => exact failsFor_writeInt layout value
      case float x => exact failsFor_writeFloat hFlat x
      all_goals exact .ok _ layout.not_refuses_nil
  | @list items _ ih | @tuple items _ ih =>
      simp only [write, writeAll_eq, Value.numbers, numbersOfAll_eq]
      exact ((FailsFor.mapM fun item hItem => ih item hItem _).map _).congr fun fault =>
        (layout.refuses_flatMap ..).symm
  | @dict entries _ ih =>
      simp only [write, writeEntries_eq, Value.numbers, numbersOfEntries_eq]
      rw [writeObject_eq hFlat.sortKeys, List.mapM_map]
      refine ((FailsFor.mapM fun entry hEntry => ?_).map _).congr fun fault =>
        (layout.refuses_flatMap ..).symm
      exact (ih entry hEntry _).map _

end LispReader.Json
