import LispReader.Json.Document
import LispReader.Token.Chain
import LispReader.Value.Describe

/-!
Reading records. A record is an object that names its variant under `type`; a cell has records as
its head and tail, and every other variant exactly its own fields. Cells are followed along their
tails, with the heads collected on the way. What the fields of the other variants hold is not
looked at.
-/

namespace LispReader.Record

/-- What is wrong with the entries of a record. -/
inductive FieldFlaw where
  /-- The key that stands for the token itself is in use. -/
  | reserved
  | unexpected (name : String)
  /-- Fields are missing; there is at least one of them. -/
  | missing (names : List String)
  deriving Repr, DecidableEq

/-- Why a value is no record. -/
inductive DecodeFault where
  | notObject (typeName : String)
  /-- The variant is named by something that cannot be a name. -/
  | unhashable (typeName : String)
  /-- No variant has the name; a missing name counts as null. -/
  | unknownKind (name : Value)
  | badFields (kind : Token.Kind) (flaw : FieldFlaw)
  /-- A record of this variant has a key that is no text. -/
  | badKey (kind : Token.Kind)

def FieldFlaw.message : FieldFlaw → String
  | .reserved => "got multiple values for argument 'self'"
  | .unexpected name => s!"got an unexpected keyword argument '{name}'"
  | .missing [name] => s!"missing 1 required positional argument: '{name}'"
  | .missing names =>
    s!"missing {names.length} required positional arguments: " ++
      " and ".intercalate (names.map fun name => s!"'{name}'")

def DecodeFault.message : DecodeFault → String
  | .notObject typeName => s!"token record must be an object, got {typeName}"
  | .unhashable typeName => s!"unhashable type: '{typeName}'"
  | .unknownKind name => name.shownIn fun shown => s!"unknown token type: {shown}"
  | .badFields kind flaw => s!"invalid {kind.name} record: {kind.name}.__init__() {flaw.message}"
  | .badKey kind => s!"invalid {kind.name} record: keywords must be strings"

/-- What a decoder finds in an object. -/
structure Members where
  /-- The entries that have texts for keys. -/
  entries : List (String × Value)
  /-- Whether there are no others. -/
  areAll : Bool

/-- The entries that have texts for keys. -/
def textEntries : List (Value × Value) → List (String × Value)
  | [] => []
  | (.text key, value) :: rest => (key, value) :: textEntries rest
  | _ :: rest => textEntries rest

/-- What is found in a value, if it is an object. -/
def members? : Value → Option Members
  | .dict entries => some ⟨entries, true⟩
  | .mapping entries => some ⟨textEntries entries, false⟩
  | _ => none

/-- The variant that entries name. -/
def namedKind (entries : List (String × Value)) : Except DecodeFault Token.Kind :=
  match (Entries.get? entries "type").getD .null with
  | .text name =>
    match Token.Kind.ofName? name with
    | some kind => .ok kind
    | none => .error (.unknownKind (.text name))
  | .list _ => .error (.unhashable "list")
  | .dict _ | .mapping _ => .error (.unhashable "dict")
  | other => .error (.unknownKind other)

/-- The first entry that is in excess of the fields of a variant. -/
def excess? (kind : Token.Kind) (entries : List (String × Value)) : Option FieldFlaw :=
  (entries.find? fun entry => entry.1 != "type" && !kind.fieldNames.contains entry.1).map
    fun entry => if entry.1 = "self" then .reserved else .unexpected entry.1

/-- The fields of a variant that have no entry. -/
def missing (kind : Token.Kind) (entries : List (String × Value)) : List String :=
  kind.fieldNames.filter fun name => (Entries.get? entries name).isNone

/-- The token of a variant without cells. An entry in excess is found before a missing one. -/
def decodeLeaf (kind : Token.Kind) (entries : List (String × Value)) : Except DecodeFault Form :=
  match excess? kind entries with
  | some flaw => .error (.badFields kind flaw)
  | none =>
    match Token.ofLeaves? kind (Entries.get? entries) with
    | some form => .ok form
    | none => .error (.badFields kind (.missing (missing kind entries)))

/-- The token of a variant without cells, of the members of its record. Keys that are no texts are
found before everything else. -/
def decodeMembers (kind : Token.Kind) (members : Members) : Except DecodeFault Form :=
  if members.areAll then decodeLeaf kind members.entries else .error (.badKey kind)

theorem sizeOf_get?_lt {entries : List (String × Value)} {key : String} {value : Value}
    (h : Entries.get? entries key = some value) : sizeOf value < sizeOf entries := by
  induction entries with
  | nil => simp [Entries.get?] at h
  | cons entry rest ih =>
      obtain ⟨k, v⟩ := entry
      simp only [Entries.get?, List.lookup_cons] at h
      split at h
      · cases h
        simp
        omega
      · have hRest := ih h
        simp
        omega

theorem sizeOf_textEntries_le (entries : List (Value × Value)) :
    sizeOf (textEntries entries) ≤ sizeOf entries := by
  fun_induction textEntries entries with
  | case1 => simp
  | case2 key value rest ih =>
      simp
      omega
  | case3 entry rest _ ih =>
      simp
      omega

theorem sizeOf_members?_lt {value : Value} {members : Members}
    (h : members? value = some members) : sizeOf members.entries < sizeOf value := by
  unfold members? at h
  split at h <;> cases h
  · simp
  · next entries =>
      have hSize := sizeOf_textEntries_le entries
      simp
      omega

mutual

def decode (record : Value) : Except DecodeFault Form :=
  decodeChain [] record
termination_by (sizeOf record, 1)

/-- The token of a record that ends a chain, folded together with the heads before it, which come
latest first. A cell without a head or a tail has null there, which is no record. -/
def decodeChain (heads : List Form) (record : Value) : Except DecodeFault Form :=
  match _hMembers : members? record with
  | none => .error (.notObject record.typeName)
  | some members => do
    match ← namedKind members.entries with
    | .cons =>
      let head ←
        match _h : Entries.get? members.entries "head" with
        | some head => decode head
        | none => throw (.notObject "NoneType")
      match _h : Entries.get? members.entries "tail" with
      | some tail => decodeChain (head :: heads) tail
      | none => throw (.notObject "NoneType")
    | kind => Token.chain heads.reverse <$> decodeMembers kind members
termination_by (sizeOf record, 0)
decreasing_by
  all_goals
    have hSize := sizeOf_get?_lt _h
    have hEntries := sizeOf_members?_lt _hMembers
    refine Prod.Lex.left _ _ ?_
    omega

end

/-- Why a text is no record. -/
inductive ReadFault where
  | json (fault : Json.ReadFault)
  | record (fault : DecodeFault)

/-- The token of the record that a text holds. -/
def read (text : List Char) : Except ReadFault Form :=
  match Json.read text with
  | .error fault => .error (.json fault)
  | .ok value =>
    match decode value with
    | .error fault => .error (.record fault)
    | .ok form => .ok form

end LispReader.Record
