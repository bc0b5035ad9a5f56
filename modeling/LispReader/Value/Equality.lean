import LispReader.Decimal.Binary64
import LispReader.Value.Basic

/-!
Equality of values and of trees. Numbers are compared by what they are worth, whatever their type:
truth values count as zero and one, and a whole number equals a double only if the double is
exactly that number. Entries may come in any order. Tokens are equal if they are of the same
variant and their fields are equal.
-/

namespace LispReader

/-- What a value is worth as a number. -/
inductive Number where
  | whole (value : Int)
  | real (value : Float)

/-- Exact equality of numbers. No number equals a double that stands for none. -/
def Number.equal : Number → Number → Bool
  | .whole a, .whole b => a == b
  | .whole a, .real b => (Decimal.Binary64.ofFloat b).equalsInt a
  | .real a, .whole b => (Decimal.Binary64.ofFloat a).equalsInt b
  | .real a, .real b => a == b

namespace Value

/-- The number that a value is worth, if it is worth one. -/
def number? : Value → Option Number
  | .bool value => some (.whole (if value then 1 else 0))
  | .int value => some (.whole value)
  | .float value => some (.real value)
  | _ => none

/-- Whether a value is worth a number. -/
def isWorth (value : Value) (number : Number) : Bool :=
  match value.number? with
  | some other => number.equal other
  | none => false

mutual

def equal : Value → Value → Bool
  | .null, .null => true
  | .bool a, other => other.isWorth (.whole (if a then 1 else 0))
  | .int a, other => other.isWorth (.whole a)
  | .float a, other => other.isWorth (.real a)
  | .text a, .text b => a == b
  | .list a, .list b => equalAll a b
  | .tuple a, .tuple b => equalAll a b
  | .dict a, .dict b => a.length == b.length && equalEntries a b
  | .mapping a, .mapping b => a.length == b.length && equalMembers a b
  | .bytes a, .bytes b => a == b
  | .token a, .token b => equalTokens a b
  | _, _ => false

def equalAll : List Value → List Value → Bool
  | [], [] => true
  | a :: as, b :: bs => equal a b && equalAll as bs
  | _, _ => false

/-- Whether every entry is found with an equal value among other entries. -/
def equalEntries : List (String × Value) → List (String × Value) → Bool
  | [], _ => true
  | (key, a) :: rest, others =>
    (match Entries.get? others key with
      | some b => equal a b
      | none => false) && equalEntries rest others

/-- Whether every entry is found with an equal value under an equal key among other entries. -/
def equalMembers : List (Value × Value) → List (Value × Value) → Bool
  | [], _ => true
  | (key, a) :: rest, others =>
    (match others.find? fun other => equal key other.1 with
      | some other => equal a other.2
      | none => false) && equalMembers rest others

/-- Equality of tokens. Two cells are compared head first, then along their tails. -/
def equalTokens : Token Value → Token Value → Bool
  | .cons head tail, .cons head' tail' => equalTokens head head' && equalTokens tail tail'
  | .integer a, .integer b => equal a b
  | .float a, .float b => equal a b
  | .rational a c, .rational b d => equal a b && equal c d
  | .string a, .string b => equal a b
  | .symbol a, .symbol b => equal a b
  | .nil, .nil => true
  | .emptyList, .emptyList => true
  | .listStart, .listStart => true
  | .listEnd, .listEnd => true
  | .dot, .dot => true
  | .comment a c, .comment b d => equal a b && equal c d
  | .quotePrefix a, .quotePrefix b => equal a b
  | _, _ => false

end

end Value

def Token.equal (left right : Form) : Bool :=
  Value.equalTokens left right

end LispReader
