import Mathlib.Data.List.Basic
import Mathlib.Data.PFun
import LispReader.Proofs.Token.Cells

/-!
Chains taken apart and put together. A walk along a chain notes the head of the cell it is at and
goes on to the tail, until there is no cell. By such walks the items of a chain are listed, its last
tail is found, and it is asked whether the chain is a proper list. Each walk ends, whatever the
chain ends in, and finds what going down the structure of the chain finds.

A chain is put together from its last item to its first. What is put together from the items and the
last tail of a chain is the chain, and there is no other way to make the chain of items and an end.
-/

namespace LispReader.Token

variable {α β : Type} {token ending : Token α} {items : List (Token α)}

/-- One turn of a walk, from what is noted and the token it is at. -/
def stepAlong (note : β → Token α → β) : β × Token α →. (β × Token α) ⊕ (β × Token α)
  | (noted, .cons head tail) => .some (.inr (note noted head, tail))
  | (noted, ending) => .some (.inl (noted, ending))

/-- A walk along a chain. It comes to what it has noted, and to the token at which it ends. -/
def walkAlong (note : β → Token α → β) : β × Token α →. β × Token α :=
  PFun.fix (stepAlong note)

/-- The items of a chain, listed on a walk. -/
def listHeads (token : Token α) : Part (List (Token α)) :=
  Prod.fst <$> walkAlong (fun items head => items ++ [head]) ([], token)

/-- Where a walk along a chain ends. -/
def findLastTail (token : Token α) : Part (Token α) :=
  Prod.snd <$> walkAlong (fun _ _ => ()) ((), token)

/-- Whether a token is a proper list. A cell has to find its last tail first. -/
def askProperList : Token α → Part Bool
  | .cons head tail => (fun ending => ending.kind == .emptyList) <$> findLastTail (.cons head tail)
  | token => .some (token.kind == .emptyList)

/-- Items put in front of a tail one by one, the last of them first. Without a tail they become a
proper list. -/
def putTogether (items : List (Token α)) (tail? : Option (Token α)) : Token α :=
  items.reverse.foldl (fun result item => .cons item result) (tail?.getD .emptyList)

theorem walkAlong_cons (note : β → Token α → β) (noted : β) (head tail : Token α) :
    walkAlong note (noted, .cons head tail) = walkAlong note (note noted head, tail) := by
  apply PFun.fix_fwd_eq
  exact Part.mem_some _

theorem walkAlong_of_kind_ne (hKind : token.kind ≠ .cons) (note : β → Token α → β) (noted : β) :
    walkAlong note (noted, token) = .some (noted, token) := by
  apply Part.eq_some_iff.mpr
  apply PFun.fix_stop
  cases token with
  | cons => exact absurd rfl hKind
  | _ => exact Part.mem_some _

theorem heads_of_kind_ne (hKind : token.kind ≠ .cons) : token.heads = [] := by
  cases token with
  | cons => exact absurd rfl hKind
  | _ => rfl

theorem lastTail_of_kind_ne (hKind : token.kind ≠ .cons) : token.lastTail = token := by
  cases token with
  | cons => exact absurd rfl hKind
  | _ => rfl

/-- Every walk ends at the last tail and has noted the heads in their order. -/
theorem walkAlong_eq (note : β → Token α → β) (noted : β) (token : Token α) :
    walkAlong note (noted, token) = .some (token.heads.foldl note noted, token.lastTail) := by
  induction token generalizing noted with
  | cons head tail _ ih => rw [walkAlong_cons, ih, heads, List.foldl_cons, lastTail]
  | _ =>
      apply walkAlong_of_kind_ne
      simp [kind]

theorem listHeads_eq (token : Token α) : listHeads token = .some token.heads := by
  rw [listHeads, walkAlong_eq, Part.map_eq_map, Part.map_some, List.foldl_append_eq_append,
    List.nil_append, ← List.flatMap_def, List.flatMap_singleton']

theorem findLastTail_eq (token : Token α) : findLastTail token = .some token.lastTail := by
  rw [findLastTail, walkAlong_eq, Part.map_eq_map, Part.map_some]

theorem isProperList_eq (token : Token α) :
    token.isProperList = (token.lastTail.kind == .emptyList) := by
  induction token with
  | cons head tail _ ih => exact ih
  | _ => rfl

theorem askProperList_eq (token : Token α) : askProperList token = .some token.isProperList := by
  cases token with
  | cons head tail =>
      rw [askProperList, findLastTail_eq, Part.map_eq_map, Part.map_some, isProperList_eq]
  | _ => rfl

theorem putTogether_eq (items : List (Token α)) (tail? : Option (Token α)) :
    putTogether items tail? = chain items (tail?.getD .emptyList) := by
  rw [putTogether, List.foldl_reverse]
  rfl

/-- Items and an end are found again in the chain that is made of them. -/
theorem heads_lastTail_of_chain_eq (hKind : ending.kind ≠ .cons) (h : chain items ending = token) :
    items = token.heads ∧ ending = token.lastTail := by
  subst h
  rw [heads_chain, heads_of_kind_ne hKind, List.append_nil, lastTail_chain,
    lastTail_of_kind_ne hKind]
  exact ⟨rfl, rfl⟩

/-- A chain comes apart into its items and its last tail, and is put together from them again; there
is no other way to make it of items and an end. Items put in front of a chain come before those that
it has, at once or in two steps, and do not change whether it is a proper list. What the walks along
a chain find is what it comes apart into. -/
theorem chain_apart_and_together (token ending : Token α) (items others : List (Token α)) :
    (chain token.heads token.lastTail = token ∧ token.lastTail.kind ≠ .cons ∧
      (ending.kind ≠ .cons → chain items ending = token →
        items = token.heads ∧ ending = token.lastTail)) ∧
    ((chain items ending).heads = items ++ ending.heads ∧
      (ending.kind ≠ .cons → ending.heads = [])) ∧
    chain items (chain others ending) = chain (items ++ others) ending ∧
    ((chain items ending).isProperList = true ↔ ending.isProperList = true) ∧
    (listHeads token = .some token.heads ∧ findLastTail token = .some token.lastTail ∧
      askProperList token = .some token.isProperList) ∧
    ∀ tail? : Option (Token α), putTogether items tail? = chain items (tail?.getD .emptyList) := by
  refine ⟨⟨chain_heads_lastTail token, token.lastTail_kind_ne_cons, heads_lastTail_of_chain_eq⟩,
    ⟨heads_chain items ending, heads_of_kind_ne⟩, ?_, ?_,
    ⟨listHeads_eq token, findLastTail_eq token, askProperList_eq token⟩, putTogether_eq items⟩
  · exact (chain_append items others ending).symm
  · rw [isProperList_chain]

/-- The chain `((a) b . c)` and no other items and end. -/
theorem chain_apart_and_together_of_dotted :
    let first : Token String := properList [.symbol "a"]
    let dotted : Token String := .cons first (.cons (.symbol "b") (.symbol "c"))
    (Token.symbol "c" : Token String).kind ≠ .cons ∧
    chain [first, .symbol "b"] (.symbol "c") = dotted ∧
    [first, .symbol "b"] = dotted.heads ∧ .symbol "c" = dotted.lastTail ∧
    (Token.symbol "c" : Token String).heads = [] := by
  intro first dotted
  obtain ⟨⟨-, -, hUnique⟩, ⟨-, hNone⟩, -⟩ :=
    chain_apart_and_together dotted (.symbol "c") [first, .symbol "b"] []
  have hKind : (Token.symbol "c" : Token String).kind ≠ .cons := by decide
  obtain ⟨hItems, hEnding⟩ := hUnique hKind rfl
  exact ⟨hKind, rfl, hItems, hEnding, hNone hKind⟩

end LispReader.Token
