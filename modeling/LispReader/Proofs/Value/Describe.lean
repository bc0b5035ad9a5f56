import LispReader.Proofs.Value.Leaves
import LispReader.Value.Describe

/-!
Which values can be shown. A description has room for all there is in a value, tokens included, and
there is none just if a whole number is somewhere in it that is too long to be written.
-/

namespace LispReader

/-- A whole number that is too long to be written is among some numbers. -/
def HoldsTooLong (numbers : List Number) : Prop :=
  ∃ n, Number.whole n ∈ numbers ∧ ¬Decimal.IsShort n

@[simp]
theorem not_holdsTooLong_nil : ¬HoldsTooLong [] := by
  simp [HoldsTooLong]

@[simp]
theorem holdsTooLong_whole {n : Int} : HoldsTooLong [.whole n] ↔ ¬Decimal.IsShort n := by
  simp [HoldsTooLong]

@[simp]
theorem not_holdsTooLong_real {x : Float} : ¬HoldsTooLong [.real x] := by
  simp [HoldsTooLong]

@[simp]
theorem holdsTooLong_append {first second : List Number} :
    HoldsTooLong (first ++ second) ↔ HoldsTooLong first ∨ HoldsTooLong second := by
  simp [HoldsTooLong, or_and_right, exists_or]

namespace Value

section

variable {α β γ : Type} {first : Option α} {second : Option β}

theorem map_eq_none_iff {f : α → β} :
    (first.bind fun a => some (f a)) = none ↔ first = none := by
  cases first <;> simp

theorem map₂_eq_none_iff {f : α → β → γ} :
    (first.bind fun a => second.bind fun b => some (f a b)) = none ↔
      first = none ∨ second = none := by
  cases first <;> cases second <;> simp

end

mutual

theorem describe?_eq_none_iff (value : Value) :
    value.describe? = none ↔ HoldsTooLong value.numbers := by
  cases value with
  | null | bool | float | text | bytes | object => simp [describe?, numbers]
  | int n => simp [describe?, numbers]
  | list items =>
      rw [describe?, numbers, ← describeAll?_eq_none_iff items]
      exact map_eq_none_iff
  | tuple items =>
      rw [describe?, numbers, ← describeAll?_eq_none_iff items]
      cases describeAll? items with
      | none => simp
      | some shown =>
          simp only [bind, Option.bind, reduceCtorEq, iff_false]
          split <;> simp
  | dict entries =>
      rw [describe?, numbers, ← describeEntries?_eq_none_iff entries]
      exact map_eq_none_iff
  | mapping entries =>
      rw [describe?, numbers, ← describeMembers?_eq_none_iff entries]
      exact map_eq_none_iff
  | token form =>
      rw [describe?, numbers]
      exact describeToken?_eq_none_iff form

theorem describeAll?_eq_none_iff (items : List Value) :
    describeAll? items = none ↔ HoldsTooLong (numbersOfAll items) := by
  cases items with
  | nil => simp [describeAll?, numbersOfAll]
  | cons item rest =>
      rw [describeAll?, numbersOfAll, holdsTooLong_append, ← describe?_eq_none_iff item,
        ← describeAll?_eq_none_iff rest]
      exact map₂_eq_none_iff

theorem describeEntries?_eq_none_iff (entries : List (String × Value)) :
    describeEntries? entries = none ↔ HoldsTooLong (numbersOfEntries entries) := by
  match entries with
  | [] => simp [describeEntries?, numbersOfEntries]
  | (key, value) :: rest =>
      rw [describeEntries?, numbersOfEntries, holdsTooLong_append, ← describe?_eq_none_iff value,
        ← describeEntries?_eq_none_iff rest]
      exact map₂_eq_none_iff

theorem describeMembers?_eq_none_iff (entries : List (Value × Value)) :
    describeMembers? entries = none ↔ HoldsTooLong (numbersOfMembers entries) := by
  match entries with
  | [] => simp [describeMembers?, numbersOfMembers]
  | (key, value) :: rest =>
      rw [describeMembers?, numbersOfMembers, holdsTooLong_append, holdsTooLong_append,
        ← describe?_eq_none_iff key, ← describe?_eq_none_iff value,
        ← describeMembers?_eq_none_iff rest, or_assoc]
      cases key.describe? with
      | none => simp
      | some name =>
          rw [or_iff_right (Option.some_ne_none name)]
          exact map₂_eq_none_iff

theorem describeToken?_eq_none_iff (form : Form) :
    describeToken? form = none ↔ HoldsTooLong form.numbers := by
  cases form with
  | nil | emptyList | listStart | listEnd | dot => simp [describeToken?, Token.numbers]
  | integer value | float value | string value | symbol value | quotePrefix value =>
      rw [describeToken?, Token.numbers, ← describe?_eq_none_iff value]
      exact map_eq_none_iff
  | rational first second | comment first second =>
      rw [describeToken?, Token.numbers, holdsTooLong_append, ← describe?_eq_none_iff first,
        ← describe?_eq_none_iff second]
      exact map₂_eq_none_iff
  | cons head tail =>
      rw [describeToken?, Token.numbers, holdsTooLong_append, ← describeToken?_eq_none_iff head,
        ← describeToken?_eq_none_iff tail]
      exact map₂_eq_none_iff

end

end Value

end LispReader
