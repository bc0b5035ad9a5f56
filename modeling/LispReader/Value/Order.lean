import LispReader.Value.Equality

/-!
The order of keys. Texts and bytes are ordered by the first place at which they differ, numbers by
what they are worth, and tuples by the order of the values at the first place at which they differ.
No other values have an order, and none is there between values of two of these sorts.
-/

namespace LispReader

/-- Two values without an order, by their types. -/
structure OrderFault where
  left : String
  right : String
  deriving Repr, DecidableEq

def OrderFault.message (fault : OrderFault) : String :=
  s!"'<' not supported between instances of '{fault.left}' and '{fault.right}'"

/-- Whether a number is less than another. No number is less or greater than a double that stands
for none. -/
def Number.less : Number → Number → Bool
  | .whole a, .whole b => a < b
  | .whole a, .real b => (Decimal.Binary64.ofFloat b).compareInt? a == some .gt
  | .real a, .whole b => (Decimal.Binary64.ofFloat a).compareInt? b == some .lt
  | .real a, .real b => a < b

namespace Value

mutual

/-- Whether a value comes before another. -/
def less : Value → Value → Except OrderFault Bool
  | .text a, .text b => .ok (a < b)
  | .bytes a, .bytes b => .ok (a < b)
  | .tuple a, .tuple b => lessAll a b
  | a, b =>
    match a.number?, b.number? with
    | some x, some y => .ok (x.less y)
    | _, _ => .error ⟨a.typeName, b.typeName⟩

/-- Whether values in a row come before others. A row comes behind its own beginning. -/
def lessAll : List Value → List Value → Except OrderFault Bool
  | _, [] => .ok false
  | [], _ :: _ => .ok true
  | a :: as, b :: bs => if a.equal b then lessAll as bs else less a b

end

/-- Compares each value with the one in front of it. -/
def compareNeighbours : List Value → Except OrderFault Unit
  | first :: second :: rest => do
    discard (second.less first)
    compareNeighbours (second :: rest)
  | _ => .ok ()

/-- Entries in the order of their keys, if neighbours can be compared. -/
def sortByKey {α : Type} (entries : List (Value × α)) : Except OrderFault (List (Value × α)) := do
  compareNeighbours (entries.map Prod.fst)
  return entries.mergeSort fun first second =>
    match second.1.less first.1 with
    | .ok true => false
    | _ => true

/-- Sorting entries by their keys keeps them. -/
theorem mem_of_sortByKey {α : Type} {entries sorted : List (Value × α)}
    (hSorted : sortByKey entries = .ok sorted) {entry : Value × α} (hEntry : entry ∈ sorted) :
    entry ∈ entries := by
  unfold sortByKey at hSorted
  cases hOrder : compareNeighbours (entries.map Prod.fst) with
  | error fault =>
      rw [hOrder] at hSorted
      cases hSorted
  | ok =>
      rw [hOrder] at hSorted
      cases hSorted
      exact (List.mergeSort_perm ..).mem_iff.1 hEntry

end Value

end LispReader
