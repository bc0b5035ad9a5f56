import LispReader.Token.Chain
import Mathlib.Data.List.Forall2

/-!
Cells that keep their places. Tokens are values, but their cells can also be looked at one by one:
a cell refers to its head and to its tail, and a place may come to hold another cell.

The cells of a chain are those that its tails lead through. Its items may share cells with each
other and even with the chain.
-/

namespace LispReader

open List (Forall₂)

variable {α : Type}

/-- What a cell refers to: another cell by its place, or a token that is no cell. -/
inductive Reference (α : Type) where
  | cell (place : Nat)
  | atom (token : Token α) (notCell : token.kind ≠ .cons)

structure Cell (α : Type) where
  head : Reference α
  tail : Reference α

/-- The cells at their places. At most places there is none. -/
abbrev Cells (α : Type) : Type := Nat → Option (Cell α)

theorem Token.lastTail_kind_ne_cons (token : Token α) : token.lastTail.kind ≠ .cons := by
  induction token with
  | cons _ _ _ ih => exact ih
  | _ => exact nofun

namespace Cells

/-- Cells with another one at a place. -/
def put (cells : Cells α) (place : Nat) (cell : Cell α) : Cells α :=
  fun other => if other = place then some cell else cells other

@[simp]
theorem put_self (cells : Cells α) (place : Nat) (cell : Cell α) :
    cells.put place cell place = some cell := by
  simp [put]

theorem put_of_ne (cells : Cells α) {place other : Nat} (h : other ≠ place) (cell : Cell α) :
    cells.put place cell other = cells other := by
  simp [put, h]

/-- A reference stands for a token: its cells hold the heads and the tails of the token. -/
inductive Holds (cells : Cells α) : Reference α → Token α → Prop
  | atom (token : Token α) (notCell : token.kind ≠ .cons) : Holds cells (.atom token notCell) token
  | cell {place : Nat} {cell : Cell α} {head tail : Token α} (hCell : cells place = some cell)
      (hHead : Holds cells cell.head head) (hTail : Holds cells cell.tail tail) :
      Holds cells (.cell place) (.cons head tail)

/-- The tails of cells with the given heads lead from one reference to another one. -/
inductive Links (cells : Cells α) : Reference α → List (Reference α) → Reference α → Prop
  | nil (reference : Reference α) : Links cells reference [] reference
  | cons {place : Nat} {cell : Cell α} {items : List (Reference α)} {ending : Reference α}
      (hCell : cells place = some cell) (hTail : Links cells cell.tail items ending) :
      Links cells (.cell place) (cell.head :: items) ending

/-- A reference leads to a cell along tails. -/
def OnChain (cells : Cells α) (reference : Reference α) (place : Nat) : Prop :=
  ∃ items, cells.Links reference items (.cell place)

/-- A reference leads to a cell along heads and tails. -/
inductive Reaches (cells : Cells α) : Reference α → Nat → Prop
  | here (place : Nat) : Reaches cells (.cell place) place
  | head {place other : Nat} {cell : Cell α} (hCell : cells place = some cell)
      (h : Reaches cells cell.head other) : Reaches cells (.cell place) other
  | tail {place other : Nat} {cell : Cell α} (hCell : cells place = some cell)
      (h : Reaches cells cell.tail other) : Reaches cells (.cell place) other

/-- A reference leads to no cell of a chain. -/
def KeepsOff (cells : Cells α) (reference chain : Reference α) : Prop :=
  ∀ place, cells.OnChain chain place → ¬ cells.Reaches reference place

variable {cells : Cells α} {place last : Nat} {reference chain ending newTail item : Reference α}
  {items others front : List (Reference α)} {token : Token α} {values : List (Token α)}

theorem OnChain.reaches (h : cells.OnChain reference place) : cells.Reaches reference place := by
  obtain ⟨items, hLinks⟩ := h
  generalize hEnding : Reference.cell place = ending at hLinks
  induction hLinks with
  | nil =>
      subst hEnding
      exact .here place
  | cons hCell _ ih => exact .tail hCell (ih hEnding)

/-- What shares no cell with a chain keeps off the chain. -/
theorem KeepsOff.of_disjoint
    (h : ∀ place, cells.Reaches reference place → ¬ cells.Reaches chain place) :
    cells.KeepsOff reference chain :=
  fun place hOnChain hReaches => h place hReaches hOnChain.reaches

theorem Links.append (h : cells.Links reference items ending)
    (h' : cells.Links ending others newTail) : cells.Links reference (items ++ others) newTail := by
  induction h with
  | nil => exact h'
  | cons hCell _ ih => exact .cons hCell (ih h')

/-- Behind the items of a chain of cells there is the token that its ending stands for. -/
theorem Links.holds_chain (h : cells.Links reference items ending)
    (hItems : Forall₂ cells.Holds items values) (hEnding : cells.Holds ending token) :
    cells.Holds reference (Token.chain values token) := by
  induction h generalizing values with
  | nil =>
      cases hItems
      exact hEnding
  | cons hCell _ ih =>
      cases hItems with
      | cons hItem hItems => exact .cell hCell hItem (ih hItems hEnding)

/-- What stands for a token leads along the heads of the token to its last tail. -/
theorem Holds.exists_links (h : cells.Holds reference token) :
    ∃ items, cells.Links reference items (.atom token.lastTail token.lastTail_kind_ne_cons) ∧
      Forall₂ cells.Holds items token.heads := by
  induction h with
  | atom token notCell =>
      cases token with
      | cons => exact absurd rfl notCell
      | _ => exact ⟨[], .nil _, .nil⟩
  | @cell place cell head tail hCell hHead hTail _ ih =>
      obtain ⟨items, hLinks, hItems⟩ := ih
      exact ⟨cell.head :: items, .cons hCell hLinks, .cons hHead hItems⟩

/-- A chain that ends has a last cell. -/
theorem Links.exists_last {notCell : token.kind ≠ .cons}
    (h : cells.Links (.cell place) items (.atom token notCell)) :
    ∃ front last item, items = front ++ [item] ∧ cells.Links (.cell place) front (.cell last) ∧
      cells last = some ⟨item, .atom token notCell⟩ := by
  generalize hStart : Reference.cell place = start, hEnding : Reference.atom token notCell = ending
    at h
  induction h generalizing place with
  | nil => exact absurd (hStart.trans hEnding.symm) nofun
  | @cons place' cell items ending hCell hTail ih =>
      obtain ⟨head, tail⟩ := cell
      cases hStart
      subst hEnding
      cases hTail with
      | nil => exact ⟨[], _, head, rfl, .nil _, hCell⟩
      | @cons next cell items _ hNext hTail =>
          obtain ⟨front, last, item, hItems, hFront, hLast⟩ := ih rfl rfl
          refine ⟨head :: front, last, item, ?_, .cons hCell hFront, hLast⟩
          rw [hItems, List.cons_append]

/-! A cell can change without effect on what does not lead to it. -/

theorem Holds.put (h : cells.Holds reference token) (hApart : ¬ cells.Reaches reference last)
    (cell : Cell α) : (cells.put last cell).Holds reference token := by
  induction h with
  | atom token notCell => exact .atom token notCell
  | @cell place old head tail hCell _ _ ihHead ihTail =>
      have hNe : place ≠ last := by
        rintro rfl
        exact hApart (.here place)
      refine .cell ((put_of_ne cells hNe cell).trans hCell) (ihHead fun hReaches => ?_)
        (ihTail fun hReaches => ?_)
      · exact hApart (.head hCell hReaches)
      · exact hApart (.tail hCell hReaches)

theorem Links.put (h : cells.Links reference items ending) (hApart : ¬ cells.Reaches reference last)
    (cell : Cell α) : (cells.put last cell).Links reference items ending := by
  induction h with
  | nil => exact .nil _
  | @cons place old items ending hCell _ ih =>
      have hNe : place ≠ last := by
        rintro rfl
        exact hApart (.here place)
      exact .cons ((put_of_ne cells hNe cell).trans hCell)
        (ih fun hReaches => hApart (.tail hCell hReaches))

/-- The way to the last cell of a chain does not go through that cell. -/
theorem Links.put_last {notCell : token.kind ≠ .cons}
    (h : cells.Links reference front (.cell last))
    (hLast : cells last = some ⟨item, .atom token notCell⟩) (cell : Cell α) :
    (cells.put last cell).Links reference front (.cell last) := by
  generalize hEnding : Reference.cell last = ending at h ⊢
  induction h with
  | nil => exact .nil _
  | @cons place old items ending hCell hTail ih =>
      subst hEnding
      have hNe : place ≠ last := by
        rintro rfl
        cases hLast.symm.trans hCell
        cases hTail
      exact .cons ((put_of_ne cells hNe cell).trans hCell) (ih rfl)

theorem forall₂_holds_put (h : Forall₂ cells.Holds items values)
    (hApart : ∀ item ∈ items, ¬ cells.Reaches item last) (cell : Cell α) :
    Forall₂ (cells.put last cell).Holds items values := by
  induction h with
  | nil => exact .nil
  | cons hItem _ ih =>
      rw [List.forall_mem_cons] at hApart
      exact .cons (hItem.put hApart.1 cell) (ih hApart.2)

end Cells

end LispReader
