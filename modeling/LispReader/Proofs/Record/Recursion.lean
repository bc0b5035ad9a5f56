import LispReader.Record.Decode

/-!
Decoding by the shape of a record. The decoder follows a chain along its tails and folds the heads
on at the end. What it gives is the token of the record with the heads in front, so a cell gives the
cell of what its head and its tail give, and the chain need not be seen as a whole.
-/

namespace LispReader

/-- The value under a key. A key that is not there has null. -/
def Entries.orNull (entries : List (String × Value)) (key : String) : Value :=
  (get? entries key).getD .null

namespace Record

theorem sizeOf_orNull_lt {value : Value} {members : Members}
    (hMembers : members? value = some members) (key : String) :
    sizeOf (Entries.orNull members.entries key) < sizeOf value := by
  have hEntries := sizeOf_members?_lt hMembers
  unfold Entries.orNull
  cases hFound : Entries.get? members.entries key with
  | none =>
      have hPos : 0 < sizeOf members.entries := by
        cases members.entries with
        | nil => exact Nat.one_pos
        | cons entry rest =>
            rw [List.cons.sizeOf_spec]
            omega
      simp only [Option.getD_none, Value.null.sizeOf_spec]
      omega
  | some held =>
      have hSize := sizeOf_get?_lt hFound
      simp only [Option.getD_some]
      omega

/-- Induction on a value along the heads and the tails of records. -/
@[elab_as_elim]
theorem record_induction {motive : Value → Prop}
    (other : ∀ value, members? value = none → motive value)
    (record : ∀ value members, members? value = some members →
      motive (Entries.orNull members.entries "head") →
      motive (Entries.orNull members.entries "tail") → motive value)
    (value : Value) : motive value :=
  match hMembers : members? value with
  | none => other value hMembers
  | some members =>
    record value members hMembers
      (record_induction other record (Entries.orNull members.entries "head"))
      (record_induction other record (Entries.orNull members.entries "tail"))
termination_by sizeOf value
decreasing_by all_goals exact sizeOf_orNull_lt hMembers _

/-- What is no object is no record. -/
theorem decodeChain_other {value : Value} (hOther : members? value = none) (heads : List Form) :
    decodeChain heads value = .error (.notObject value.typeName) := by
  rw [decodeChain]
  split
  · rfl
  · next hMembers => cases hOther.symm.trans hMembers

section Members

variable {value : Value} {members : Members} (hMembers : members? value = some members)
  (heads : List Form)
include hMembers

/-- One turn of the loop along a chain, with null for a head and a tail that are not there. -/
theorem decodeChain_of_members :
    decodeChain heads value = namedKind members.entries >>= fun kind =>
      if kind = .cons then
        decode (Entries.orNull members.entries "head") >>= fun head =>
          decodeChain (head :: heads) (Entries.orNull members.entries "tail")
      else Token.chain heads.reverse <$> decodeMembers kind members := by
  have hNull : ∀ heads, decodeChain heads .null = .error (.notObject "NoneType") :=
    decodeChain_other rfl
  rw [decodeChain]
  split
  · next hNone => cases hMembers.symm.trans hNone
  · next found hFound =>
      obtain rfl := Option.some.inj (hMembers.symm.trans hFound)
      refine congrArg _ (funext fun kind => ?_)
      cases kind <;> try rfl
      rw [if_pos rfl, Entries.orNull, Entries.orNull, decode]
      simp only [bind, Except.bind]
      split
      · next head hHead =>
          rw [hHead, Option.getD_some, decode]
          split
          · rfl
          · next first hFirst =>
              split
              · next tail hTail => rw [hTail, Option.getD_some]
              · next hTail =>
                  rw [hTail, Option.getD_none, hNull]
                  rfl
      · next hHead =>
          rw [hHead, Option.getD_none, hNull]
          rfl

theorem decodeChain_of_error {fault : DecodeFault}
    (hKind : namedKind members.entries = .error fault) :
    decodeChain heads value = .error fault := by
  rw [decodeChain_of_members hMembers, hKind]
  rfl

theorem decodeChain_of_leaf {kind : Token.Kind} (hKind : namedKind members.entries = .ok kind)
    (hLeaf : kind ≠ .cons) :
    decodeChain heads value = Token.chain heads.reverse <$> decodeMembers kind members := by
  rw [decodeChain_of_members hMembers, hKind]
  exact if_neg hLeaf

theorem decodeChain_of_cons (hKind : namedKind members.entries = .ok .cons) :
    decodeChain heads value = decode (Entries.orNull members.entries "head") >>= fun head =>
      decodeChain (head :: heads) (Entries.orNull members.entries "tail") := by
  rw [decodeChain_of_members hMembers, hKind]
  rfl

end Members

/-- The token of a record behind heads is the token of the record alone, with the heads in front. -/
theorem decodeChain_eq (heads : List Form) (value : Value) :
    decodeChain heads value = Token.chain heads.reverse <$> decode value := by
  induction value using record_induction generalizing heads with
  | other value hOther =>
      rw [decode, decodeChain_other hOther, decodeChain_other hOther]
      rfl
  | record value members hMembers _ ihTail =>
      rw [decode]
      cases hKind : namedKind members.entries with
      | error fault =>
          rw [decodeChain_of_error hMembers _ hKind, decodeChain_of_error hMembers _ hKind]
          rfl
      | ok kind =>
          by_cases hCons : kind = .cons
          · subst hCons
            rw [decodeChain_of_cons hMembers _ hKind, decodeChain_of_cons hMembers _ hKind,
              map_bind]
            refine congrArg _ (funext fun head => ?_)
            rw [ihTail, ihTail, Functor.map_map]
            refine congrArg (· <$> _) (funext fun tail => ?_)
            simp [Token.chain]
          · rw [decodeChain_of_leaf hMembers _ hKind hCons,
              decodeChain_of_leaf hMembers _ hKind hCons]
            simp

theorem decode_other {value : Value} (hOther : members? value = none) :
    decode value = .error (.notObject value.typeName) := by
  rw [decode, decodeChain_other hOther]

section Members

variable {value : Value} {members : Members} (hMembers : members? value = some members)
include hMembers

theorem decode_of_error {fault : DecodeFault} (hKind : namedKind members.entries = .error fault) :
    decode value = .error fault := by
  rw [decode, decodeChain_of_error hMembers _ hKind]

theorem decode_of_leaf {kind : Token.Kind} (hKind : namedKind members.entries = .ok kind)
    (hLeaf : kind ≠ .cons) : decode value = decodeMembers kind members := by
  rw [decode, decodeChain_of_leaf hMembers _ hKind hLeaf]
  exact id_map (decodeMembers kind members)

/-- A cell is put together from what its head and its tail give. The head is decoded first. -/
theorem decode_of_cons (hKind : namedKind members.entries = .ok .cons) :
    decode value = do
      let head ← decode (Entries.orNull members.entries "head")
      let tail ← decode (Entries.orNull members.entries "tail")
      return .cons head tail := by
  rw [decode, decodeChain_of_cons hMembers _ hKind]
  refine congrArg _ (funext fun head => ?_)
  rw [decodeChain_eq, map_eq_pure_bind]
  rfl

theorem decode_cons_eq_ok_iff (hKind : namedKind members.entries = .ok .cons) {form : Form} :
    decode value = .ok form ↔
      ∃ head tail, decode (Entries.orNull members.entries "head") = .ok head ∧
        decode (Entries.orNull members.entries "tail") = .ok tail ∧ form = .cons head tail := by
  rw [decode_of_cons hMembers hKind]
  cases decode (Entries.orNull members.entries "head") <;>
    cases decode (Entries.orNull members.entries "tail") <;>
      simp [bind, Except.bind, pure, Except.pure, eq_comm]

end Members

/-- The token of a value by recursion: a cell is put together from the tokens of its head and of its
tail, where a key that is not there counts as null, and any other token from its own fields. -/
def decodeRecord (value : Value) : Except DecodeFault Form :=
  match _hMembers : members? value with
  | none => .error (.notObject value.typeName)
  | some members => do
    match ← namedKind members.entries with
    | .cons =>
      let head ← decodeRecord (Entries.orNull members.entries "head")
      let tail ← decodeRecord (Entries.orNull members.entries "tail")
      return .cons head tail
    | kind => decodeMembers kind members
termination_by sizeOf value
decreasing_by all_goals exact sizeOf_orNull_lt _hMembers _

/-- Following a chain with a loop gives what recursion gives: the same token, or the fault that
comes first when a head is looked at before its tail. -/
theorem decode_eq_decodeRecord (value : Value) : decode value = decodeRecord value := by
  induction value using record_induction with
  | other value hOther =>
      rw [decode_other hOther, decodeRecord]
      split
      · rfl
      · next hMembers => cases hOther.symm.trans hMembers
  | record value members hMembers ihHead ihTail =>
      rw [decodeRecord]
      split
      · next hNone => cases hMembers.symm.trans hNone
      · next found hFound =>
          obtain rfl := Option.some.inj (hMembers.symm.trans hFound)
          cases hKind : namedKind members.entries with
          | error fault =>
              rw [decode_of_error hMembers hKind]
              rfl
          | ok kind =>
              by_cases hCons : kind = .cons
              · subst hCons
                rw [decode_of_cons hMembers hKind, ihHead, ihTail]
                rfl
              · rw [decode_of_leaf hMembers hKind hCons]
                cases kind <;> first | rfl | exact absurd rfl hCons

/-- A text is read to what its value is decoded to. -/
theorem read_eq_ok_iff {text : List Char} {form : Form} :
    read text = .ok form ↔ ∃ value, Json.read text = .ok value ∧ decode value = .ok form := by
  unfold read
  cases Json.read text with
  | error fault => simp
  | ok value => cases hDecode : decode value <;> simp [hDecode]

theorem read_eq_record_error_iff {text : List Char} {fault : DecodeFault} :
    read text = .error (.record fault) ↔
      ∃ value, Json.read text = .ok value ∧ decode value = .error fault := by
  unfold read
  cases Json.read text with
  | error fault => simp
  | ok value => cases hDecode : decode value <;> simp [hDecode]

end Record

end LispReader
