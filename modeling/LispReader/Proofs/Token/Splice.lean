import LispReader.Proofs.Token.Cells
import Mathlib.Data.PFun

/-!
Splicing at the end of a chain, in place. One cell after the other is looked at, and the tail of the
last one is replaced. The loop over the cells does what rebuilding the chain would do: the items
stay the ones they were, and the new tail follows them. It touches the last cell only, and nothing
at all if the chain does not end in the empty list.

Only the new tail has to keep away from the chain, as it would lead in a circle otherwise.
-/

namespace LispReader

open List (Forall₂)

variable {α : Type}

namespace Token

theorem setLastTail_cons_of_lastTail_eq {head tail : Token α} (newTail : Token α)
    (h : tail.lastTail = .emptyList) :
    (cons head tail).setLastTail newTail = .ok (chain (cons head tail).heads newTail) := by
  induction tail generalizing head with
  | cons next rest _ ih =>
      have hRest : (cons next rest).setLastTail newTail =
          .ok (chain (cons next rest).heads newTail) := ih h
      rw [setLastTail, hRest]
      rfl
  | emptyList => rfl
  | _ => cases h

theorem setLastTail_cons_of_lastTail_ne {head tail : Token α} (newTail : Token α)
    (h : tail.lastTail ≠ .emptyList) :
    (cons head tail).setLastTail newTail = .error (.improper tail.lastTail.kind) := by
  induction tail generalizing head with
  | cons next rest _ ih =>
      have hRest : (cons next rest).setLastTail newTail =
          .error (.improper rest.lastTail.kind) := ih h
      rw [setLastTail, hRest]
      rfl
  | emptyList => exact absurd rfl h
  | _ => rfl

end Token

namespace Cells

variable {cells : Cells α} {place next last : Nat} {newTail item : Reference α}
  {front : List (Reference α)} {token added : Token α}

/-- A look at one cell: the next cell to look at, or what comes of it all. -/
def stepLastTail (cells : Cells α) (newTail : Reference α) :
    Nat →. (Except Token.SpliceFault Unit × Cells α) ⊕ Nat := fun place =>
  match cells place with
  | none => .none
  | some cell =>
    match cell.tail with
    | .cell next => .some (.inr next)
    | .atom .emptyList _ => .some (.inl (.ok (), cells.put place { cell with tail := newTail }))
    | .atom ending _ => .some (.inl (.error (.improper ending.kind), cells))

/-- Replaces the empty end of the chain at a place. Nothing comes of it where there is no cell, or
where the chain goes round in a circle. -/
def setLastTail (cells : Cells α) (newTail : Reference α) :
    Nat →. Except Token.SpliceFault Unit × Cells α :=
  PFun.fix (cells.stepLastTail newTail)

/-- What a splice makes of the chain at a place. The items are the references that they were, also
where what they stand for has changed with the chain. -/
structure Spliced (before after : Cells α) (place : Nat) (items : List (Reference α))
    (newTail : Reference α) (token added : Token α) : Prop where
  /-- One cell of the chain has another tail, and nothing else is different. -/
  put_last : ∃ last item notCell, before.OnChain (.cell place) last ∧
    before last = some ⟨item, .atom .emptyList notCell⟩ ∧ after = before.put last ⟨item, newTail⟩
  links_before : ∃ notCell, before.Links (.cell place) items (.atom .emptyList notCell)
  /-- The items are followed by what the new tail leads to. -/
  links : ∀ {others ending}, before.Links newTail others ending →
    after.Links (.cell place) (items ++ others) ending
  /-- The chain is the list that can be built from the items and the added token. -/
  holds_chain : ∀ {values}, Forall₂ after.Holds items values →
    after.Holds (.cell place) (Token.chain values added)
  /-- Items that share no cell with the chain are the tokens that they were. -/
  holds_chain_heads : (∀ item ∈ items, before.KeepsOff item (.cell place)) →
    after.Holds (.cell place) (Token.chain token.heads added)

/-! The loop: it goes on along tails until there is no cell, and there it ends at once. -/

theorem setLastTail_of_cell (hCell : cells place = some ⟨item, .cell next⟩) :
    cells.setLastTail newTail place = cells.setLastTail newTail next := by
  apply PFun.fix_fwd_eq
  rw [stepLastTail, hCell]
  exact Part.mem_some _

theorem setLastTail_of_emptyList {notCell : (Token.emptyList : Token α).kind ≠ .cons}
    (hCell : cells place = some ⟨item, .atom .emptyList notCell⟩) :
    cells.setLastTail newTail place = .some (.ok (), cells.put place ⟨item, newTail⟩) := by
  apply Part.eq_some_iff.mpr
  apply PFun.fix_stop
  rw [stepLastTail, hCell]
  exact Part.mem_some _

theorem setLastTail_of_ending {notCell : token.kind ≠ .cons}
    (hCell : cells place = some ⟨item, .atom token notCell⟩) (h : token ≠ .emptyList) :
    cells.setLastTail newTail place = .some (.error (.improper token.kind), cells) := by
  apply Part.eq_some_iff.mpr
  apply PFun.fix_stop
  rw [stepLastTail, hCell]
  cases token with
  | emptyList => exact absurd rfl h
  | _ => exact Part.mem_some _

/-- From the first cell of a chain, the loop arrives at the last one. -/
theorem Links.setLastTail_eq (h : cells.Links (.cell place) front (.cell last))
    (newTail : Reference α) :
    cells.setLastTail newTail place = cells.setLastTail newTail last := by
  generalize hStart : Reference.cell place = start, hEnding : Reference.cell last = ending at h
  induction h generalizing place with
  | nil =>
      cases hStart.trans hEnding.symm
      rfl
  | @cons place' cell items ending hCell hTail ih =>
      obtain ⟨head, tail⟩ := cell
      cases hStart
      subst hEnding
      cases tail with
      | cell next => exact (setLastTail_of_cell hCell).trans (ih rfl rfl)
      | atom => cases hTail

/-- The tail of the last cell is where the new tail belongs. -/
theorem spliced_put_last {notCell : (Token.emptyList : Token α).kind ≠ .cons}
    (hFront : cells.Links (.cell place) front (.cell last))
    (hLast : cells last = some ⟨item, .atom .emptyList notCell⟩)
    (hItems : Forall₂ cells.Holds (front ++ [item]) token.heads)
    (hAdded : cells.Holds newTail added) (hApart : cells.KeepsOff newTail (.cell place)) :
    cells.Spliced (cells.put last ⟨item, newTail⟩) place (front ++ [item]) newTail token added := by
  have hOnChain : cells.OnChain (.cell place) last := ⟨front, hFront⟩
  have hNot : ¬ cells.Reaches newTail last := hApart last hOnChain
  have hLinks : (cells.put last ⟨item, newTail⟩).Links (.cell place) (front ++ [item]) newTail :=
    (hFront.put_last hLast _).append (.cons (put_self cells last _) (.nil newTail))
  have hAfter : ∀ {values},
      Forall₂ (cells.put last ⟨item, newTail⟩).Holds (front ++ [item]) values →
        (cells.put last ⟨item, newTail⟩).Holds (.cell place) (Token.chain values added) :=
    fun hValues => hLinks.holds_chain hValues (hAdded.put hNot _)
  exact {
    put_last := ⟨last, item, notCell, hOnChain, hLast, rfl⟩
    links_before := ⟨notCell, hFront.append (.cons hLast (.nil _))⟩
    links := fun hOthers => hLinks.append (hOthers.put hNot _)
    holds_chain := hAfter
    holds_chain_heads := fun hOff =>
      hAfter (forall₂_holds_put hItems (fun item hItem => hOff item hItem last hOnChain) _) }

/-- A chain that ends in the empty list takes a new tail. -/
theorem Holds.exists_spliced (hChain : cells.Holds (.cell place) token)
    (hEnd : token.lastTail = .emptyList) (hAdded : cells.Holds newTail added)
    (hApart : cells.KeepsOff newTail (.cell place)) :
    ∃ items after, cells.setLastTail newTail place = .some (.ok (), after) ∧
      cells.Spliced after place items newTail token added := by
  obtain ⟨items, hLinks, hItems⟩ := hChain.exists_links
  obtain ⟨front, last, item, rfl, hFront, hLast⟩ := hLinks.exists_last
  have hEmpty : cells last = some ⟨item, .atom .emptyList nofun⟩ := by
    simpa only [hEnd] using hLast
  refine ⟨front ++ [item], cells.put last ⟨item, newTail⟩, ?_, ?_⟩
  · exact (hFront.setLastTail_eq newTail).trans (setLastTail_of_emptyList hEmpty)
  · exact spliced_put_last hFront hEmpty hItems hAdded hApart

/-- A chain that ends in anything else is left as it was. -/
theorem Holds.setLastTail_of_ne (hChain : cells.Holds (.cell place) token)
    (hEnd : token.lastTail ≠ .emptyList) (newTail : Reference α) :
    cells.setLastTail newTail place = .some (.error (.improper token.lastTail.kind), cells) := by
  obtain ⟨items, hLinks, -⟩ := hChain.exists_links
  obtain ⟨front, last, item, -, hFront, hLast⟩ := hLinks.exists_last
  exact (hFront.setLastTail_eq newTail).trans (setLastTail_of_ending hLast hEnd)

/-- A token is spliced in at the end of a chain if and only if the chain ends in the empty list. The
outcome is that of rebuilding the chain: its items are followed by those of the token, and it ends
in what the token ends in. Otherwise no cell changes. -/
theorem setLastTail_of_holds (hChain : cells.Holds (.cell place) token)
    (hAdded : cells.Holds newTail added) (hApart : cells.KeepsOff newTail (.cell place)) :
    ((∃ after, cells.setLastTail newTail place = .some (.ok (), after)) ↔
      token.lastTail = .emptyList) ∧
    (token.lastTail = .emptyList →
      (∃ items after, cells.setLastTail newTail place = .some (.ok (), after) ∧
        cells.Spliced after place items newTail token added) ∧
      ∃ spliced, token.setLastTail added = .ok spliced ∧
        spliced = Token.chain token.heads added ∧
        spliced.heads = token.heads ++ added.heads ∧ spliced.lastTail = added.lastTail) ∧
    (token.lastTail ≠ .emptyList →
      cells.setLastTail newTail place = .some (.error (.improper token.lastTail.kind), cells) ∧
      token.setLastTail added = .error (.improper token.lastTail.kind)) := by
  obtain ⟨head, tail, rfl⟩ : ∃ head tail, token = .cons head tail := by
    cases hChain
    exact ⟨_, _, rfl⟩
  refine ⟨⟨?_, fun hEnd => ?_⟩, fun hEnd => ⟨?_, _, ?_, rfl, ?_, ?_⟩, fun hEnd => ⟨?_, ?_⟩⟩
  · rintro ⟨after, hDone⟩
    by_contra hEnd
    cases Part.some_inj.mp ((hChain.setLastTail_of_ne hEnd newTail).symm.trans hDone)
  · obtain ⟨_, after, hDone, _⟩ := hChain.exists_spliced hEnd hAdded hApart
    exact ⟨after, hDone⟩
  · exact hChain.exists_spliced hEnd hAdded hApart
  · exact Token.setLastTail_cons_of_lastTail_eq added hEnd
  · exact Token.heads_chain _ added
  · exact Token.lastTail_chain _ added
  · exact hChain.setLastTail_of_ne hEnd newTail
  · exact Token.setLastTail_cons_of_lastTail_ne added hEnd

/-- The chains `(a b)` and `(c . d)`, side by side. -/
def twoChains : Cells String
  | 0 => some ⟨.atom (.symbol "a") nofun, .cell 1⟩
  | 1 => some ⟨.atom (.symbol "b") nofun, .atom .emptyList nofun⟩
  | 2 => some ⟨.atom (.symbol "c") nofun, .atom (.symbol "d") nofun⟩
  | _ => none

theorem setLastTail_of_holds_twoChains :
    (∃ items after, twoChains.setLastTail (.cell 2) 0 = .some (.ok (), after) ∧
      twoChains.Spliced after 0 items (.cell 2) (.properList [.symbol "a", .symbol "b"])
        (.chain [.symbol "c"] (.symbol "d"))) ∧
    twoChains.setLastTail (.cell 0) 2 = .some (.error (.improper .symbol), twoChains) := by
  have hProper : twoChains.Holds (.cell 0) (.properList [.symbol "a", .symbol "b"]) :=
    .cell rfl (.atom _ _) (.cell rfl (.atom _ _) (.atom _ _))
  have hDotted : twoChains.Holds (.cell 2) (.chain [.symbol "c"] (.symbol "d")) :=
    .cell rfl (.atom _ _) (.atom _ _)
  -- From the second chain only its own cell is reached, and from the first one the other two.
  have hDisjoint : ∀ place, twoChains.Reaches (.cell 2) place →
      ¬ twoChains.Reaches (.cell 0) place := by
    rintro place (_ | ⟨⟨⟩, ⟨⟩⟩ | ⟨⟨⟩, ⟨⟩⟩) (_ | ⟨⟨⟩, ⟨⟩⟩ | ⟨⟨⟩, _ | ⟨⟨⟩, ⟨⟩⟩ | ⟨⟨⟩, ⟨⟩⟩⟩)
  refine ⟨?_, ?_⟩
  · exact ((setLastTail_of_holds hProper hDotted (.of_disjoint hDisjoint)).2.1 rfl).1
  · exact ((setLastTail_of_holds hDotted hProper
      (.of_disjoint fun place h h' => hDisjoint place h' h)).2.2 nofun).1

end Cells

end LispReader
