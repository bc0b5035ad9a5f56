import LispReader.Token.Basic

/-!
Chains of cells. `chain items tail` folds items onto a tail, `heads` and `lastTail` take a chain
apart again, and `setLastTail` splices a token in at the end of a proper list.
-/

namespace LispReader.Token

variable {α : Type}

/-- Items folded from the right onto a tail. -/
def chain (items : List (Token α)) (tail : Token α) : Token α :=
  items.foldr .cons tail

def properList (items : List (Token α)) : Token α :=
  chain items .emptyList

/-- The heads along a chain, in order. A token that is no cell has none. -/
def heads : Token α → List (Token α)
  | .cons head tail => head :: tail.heads
  | _ => []

/-- The first tail along a chain that is no cell. -/
def lastTail : Token α → Token α
  | .cons _ tail => tail.lastTail
  | token => token

/-- Whether a token is the empty list or a chain that ends in it. -/
def isProperList : Token α → Bool
  | .cons _ tail => tail.isProperList
  | .emptyList => true
  | _ => false

@[simp]
theorem chain_nil (tail : Token α) : chain [] tail = tail := rfl

@[simp]
theorem chain_cons (item : Token α) (items : List (Token α)) (tail : Token α) :
    chain (item :: items) tail = .cons item (chain items tail) := rfl

@[simp]
theorem heads_chain (items : List (Token α)) (tail : Token α) :
    (chain items tail).heads = items ++ tail.heads := by
  induction items with
  | nil => rfl
  | cons item items ih => simp [heads, ih]

@[simp]
theorem lastTail_chain (items : List (Token α)) (tail : Token α) :
    (chain items tail).lastTail = tail.lastTail := by
  induction items with
  | nil => rfl
  | cons item items ih => simpa [lastTail] using ih

theorem isProperList_chain (items : List (Token α)) (tail : Token α) :
    (chain items tail).isProperList = tail.isProperList := by
  induction items with
  | nil => rfl
  | cons item items ih => exact ih

theorem not_isComment_chain {tail : Token α} (h : tail.isComment = false)
    (items : List (Token α)) : (chain items tail).isComment = false := by
  cases items with
  | nil => exact h
  | cons item items => rfl

/-- Items may be put in front of a tail at once or in two steps. -/
theorem chain_append (items others : List (Token α)) (tail : Token α) :
    chain (items ++ others) tail = chain items (chain others tail) :=
  List.foldr_append

theorem chain_heads_lastTail (token : Token α) : chain token.heads token.lastTail = token := by
  induction token with
  | cons head tail _ ih => simp [heads, lastTail, ih]
  | _ => rfl

/-- A quote mark written out: the list of an operator's symbol and the quoted form. The
operator's name is given as a field value. -/
def quoteForm (operator : α) (form : Token α) : Token α :=
  .cons (.symbol operator) (.cons form .emptyList)

/-- Why a tail cannot be replaced. -/
inductive SpliceFault where
  | noTail (kind : Kind)
  | noLastTail (kind : Kind)
  /-- The chain does not end in the empty list. -/
  | improper (ending : Kind)
  deriving Repr, DecidableEq

def SpliceFault.message : SpliceFault → String
  | .noTail kind => s!"cannot set the tail of {kind.name}"
  | .noLastTail kind => s!"cannot set the last tail of {kind.name}"
  | .improper ending => s!"cons chain ends in {ending.name}, not EmptyList"

/-- A cell with another tail. -/
def setTail (token newTail : Token α) : Except SpliceFault (Token α) :=
  match token with
  | .cons head _ => .ok (.cons head newTail)
  | other => .error (.noTail other.kind)

/-- A proper list with a token in place of its empty end. -/
def setLastTail (token newTail : Token α) : Except SpliceFault (Token α) :=
  match token with
  | .cons head (.cons next rest) => .cons head <$> setLastTail (.cons next rest) newTail
  | .cons head .emptyList => .ok (.cons head newTail)
  | .cons _ ending => .error (.improper ending.kind)
  | other => .error (.noLastTail other.kind)

end LispReader.Token
