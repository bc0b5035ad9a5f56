import LispReader.Value.Equality

/-!
How two tokens are compared. A token is asked whether it equals another one, and may have no answer,
as it has none for a token of another variant. Then the other one is asked, and if it has no answer
either they are not equal. A cell answers by a walk along both chains: it compares the heads on its
way, and behind the last two cells whatever the chains end in.

All this comes to equality along the structure of tokens, and to be different is not to be equal.
The comparison of the values in the fields is a parameter, and nothing is assumed about it.
-/

namespace LispReader.Token

variable {α : Type}

/-- The values in the fields of a token, without the tokens in them. -/
def ownValues (token : Token α) : List α :=
  token.fields.filterMap fun field =>
    match field.2 with
    | .leaf value => some value
    | .child _ => none

section

variable (equal : α → α → Bool)

/-- What a token without cells says of its equality with another one. It compares its fields with
those of a token of its own variant. -/
def answerApart? (left right : Token α) : Option Bool :=
  if left.kind = right.kind then some (left.ownValues.isEqv right.ownValues equal) else none

mutual

/-- What a token says of its equality with another one. -/
def answer? (left right : Token α) : Option Bool :=
  match left, right with
  | .cons head tail, .cons head' tail' => some (walk head tail head' tail')
  | .cons _ _, _ => none
  | left, right => answerApart? equal left right
termination_by (sizeOf left + sizeOf right, 0)
decreasing_by
  apply Prod.Lex.left
  simp only [cons.sizeOf_spec]
  omega

/-- Goes along two chains from a cell of each as long as both go on, and stops at heads that
differ. -/
def walk (head tail head' tail' : Token α) : Bool :=
  if differ head head' then false
  else
    match tail, tail' with
    | .cons next rest, .cons next' rest' => walk next rest next' rest'
    | ending, ending' => same ending ending'
termination_by (sizeOf head + sizeOf tail + sizeOf head' + sizeOf tail' + 1, 0)
decreasing_by
  all_goals
    apply Prod.Lex.left
    simp +arith

/-- Whether two tokens are equal. -/
def same (left right : Token α) : Bool :=
  match answer? left right with
  | some answer => answer
  | none =>
    match answer? right left with
    | some answer => answer
    | none => false
termination_by (sizeOf left + sizeOf right, 1)
decreasing_by
  · apply Prod.Lex.right
    decide
  · rw [Nat.add_comm]
    apply Prod.Lex.right
    decide

/-- Whether two tokens are different. -/
def differ (left right : Token α) : Bool :=
  match answer? left right with
  | some answer => !answer
  | none =>
    match answer? right left with
    | some answer => !answer
    | none => true
termination_by (sizeOf left + sizeOf right, 1)
decreasing_by
  · apply Prod.Lex.right
    decide
  · rw [Nat.add_comm]
    apply Prod.Lex.right
    decide

end

/-- Equality along the structure of tokens: of the variant, of the values in the fields, and of the
heads and the tails of cells. -/
def equalBy : Token α → Token α → Bool
  | .cons head tail, .cons head' tail' => equalBy head head' && equalBy tail tail'
  | left, right => decide (left.kind = right.kind) && left.ownValues.isEqv right.ownValues equal

end

variable {equal : α → α → Bool}

/-- Tokens that are not both cells are equal if they are of one variant with equal fields. -/
theorem equalBy_of_not_cells {left right : Token α}
    (hCells : ¬(left.kind = .cons ∧ right.kind = .cons)) :
    equalBy equal left right =
      (decide (left.kind = right.kind) && left.ownValues.isEqv right.ownValues equal) := by
  rw [equalBy.eq_def]
  split
  · exact absurd ⟨rfl, rfl⟩ hCells
  · rfl

theorem equalBy_cons_cons (head tail head' tail' : Token α) :
    equalBy equal (.cons head tail) (.cons head' tail') =
      (equalBy equal head head' && equalBy equal tail tail') := by
  rw [equalBy]

/-- Tokens that are not both cells answer for tokens of their variant only. -/
theorem answer?_of_not_cells {left right : Token α}
    (hCells : ¬(left.kind = .cons ∧ right.kind = .cons)) :
    answer? equal left right =
      if left.kind = right.kind then some (equalBy equal left right) else none := by
  rw [answer?.eq_def]
  split
  · exact absurd ⟨rfl, rfl⟩ hCells
  · rw [if_neg]
    intro hKinds
    exact hCells ⟨rfl, hKinds.symm⟩
  · rw [answerApart?, equalBy_of_not_cells hCells]
    split
    · next hKinds => rw [decide_eq_true hKinds, Bool.true_and]
    · rfl

theorem compare_of_not_cells {left right : Token α}
    (hCells : ¬(left.kind = .cons ∧ right.kind = .cons)) :
    same equal left right = equalBy equal left right ∧
      differ equal left right = !equalBy equal left right := by
  have hBack : ¬(right.kind = .cons ∧ left.kind = .cons) := fun h => hCells h.symm
  rw [same, differ, answer?_of_not_cells hCells, answer?_of_not_cells hBack]
  by_cases hKinds : left.kind = right.kind
  · rw [if_pos hKinds]
    exact ⟨rfl, rfl⟩
  · rw [if_neg hKinds, if_neg (Ne.symm hKinds), equalBy_of_not_cells hCells, decide_eq_false hKinds]
    exact ⟨rfl, rfl⟩

/-- A step of the walk compares two heads, and goes on with the comparison of the tails. -/
theorem walk_eq (head tail head' tail' : Token α) :
    walk equal head tail head' tail' =
      if differ equal head head' then false else same equal tail tail' := by
  rw [walk.eq_def]
  split
  · rfl
  · split
    · rw [same, answer?]
    · rfl

/-- Whatever is asked of two tokens, the answer is that of comparing them along their structure. -/
theorem compare_eq (left right : Token α) :
    same equal left right = equalBy equal left right ∧
      differ equal left right = !equalBy equal left right := by
  induction left generalizing right with
  | cons head tail ihHead ihTail =>
      cases right with
      | cons head' tail' =>
          have hAnswer : answer? equal (cons head tail) (cons head' tail') =
              some (equalBy equal (cons head tail) (cons head' tail')) := by
            rw [answer?, walk_eq, (ihHead head').2, (ihTail tail').1, equalBy_cons_cons]
            cases equalBy equal head head' <;> rfl
          rw [same, differ, hAnswer]
          exact ⟨rfl, rfl⟩
      | _ =>
          apply compare_of_not_cells
          simp [kind]
  | _ =>
      apply compare_of_not_cells
      simp [kind]

theorem same_eq_equalBy (left right : Token α) : same equal left right = equalBy equal left right :=
  (compare_eq left right).1

theorem differ_eq_not_same (left right : Token α) :
    differ equal left right = !same equal left right := by
  rw [same_eq_equalBy]
  exact (compare_eq left right).2

/-- Equality of tokens over values is the comparison that compares field by field. -/
theorem equal_eq_equalBy (left right : Form) :
    left.equal right = equalBy Value.equal left right := by
  induction left generalizing right with
  | cons head tail ihHead ihTail =>
      cases right with
      | cons head' tail' =>
          rw [equalBy_cons_cons, ← ihHead, ← ihTail]
          simp only [Token.equal, Value.equalTokens]
      | _ => simp [Token.equal, Value.equalTokens, equalBy, kind]
  | _ =>
      cases right <;>
        simp [Token.equal, Value.equalTokens, equalBy, kind, ownValues, fields, List.isEqv]

end LispReader.Token
