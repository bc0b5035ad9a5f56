import LispReader.Token.Chain
import LispReader.Value.Describe

/-!
Conversion between values and tokens. `toToken` makes the token that stands for a plain value;
`Token.settingValue` gives the plain value that a token stands for in a settings file.
-/

namespace LispReader

/-- Why a value stands for no token. -/
inductive ConversionFault where
  /-- A tuple is a ratio only if it is a pair of whole numbers. The fault shows it. -/
  | tuple (shown : String)
  /-- A tuple that is no ratio, and that cannot be shown. -/
  | tooLong
  /-- No value of this type stands for a token. -/
  | type (name : String)
  deriving Repr, DecidableEq

namespace ConversionFault

/-- Whether a fault blames the type of a value. -/
def isOfType : ConversionFault → Bool
  | .tuple _ | .type _ => true
  | .tooLong => false

def message : ConversionFault → String
  | .tuple shown => s!"cannot convert tuple {shown} to a token"
  | .tooLong => Decimal.tooLong
  | .type name => s!"cannot convert {name} to a token"

/-- The fault of a tuple that is no ratio. -/
def ofTuple (items : List Value) : ConversionFault :=
  match (Value.tuple items).describe? with
  | some shown => .tuple shown
  | none => .tooLong

end ConversionFault

namespace Value

mutual

/-- The token that stands for a value. Truth values are refused, although they count as numbers
elsewhere; whole numbers may have any size. -/
def toToken : Value → Except ConversionFault Form
  | .token value => .ok value
  | .null => .ok .nil
  | .int value => .ok (.integer (.int value))
  | .float value => .ok (.float (.float value))
  | .text value => .ok (.string (.text value))
  | .tuple [.int numerator, .int denominator] =>
    .ok (.rational (.int numerator) (.int denominator))
  | .tuple items => .error (.ofTuple items)
  | .list items => Token.properList <$> toTokens items
  | .bool _ => .error (.type "bool")
  | .dict _ | .mapping _ => .error (.type "dict")
  | .bytes _ => .error (.type "bytes")
  | .object => .error (.type "object")

/-- The tokens that stand for values in a row. The first value without one decides the fault. -/
def toTokens : List Value → Except ConversionFault (List Form)
  | [] => .ok []
  | item :: rest => do
    let first ← toToken item
    let others ← toTokens rest
    return first :: others

end

end Value

/-- A setting that stands for no plain value. -/
structure SettingFault where
  value : Value

def SettingFault.message (fault : SettingFault) : String :=
  fault.value.shownIn fun shown => s!"unsupported configuration value: {shown}"

namespace Token

mutual

/-- The value of a token in a settings file: the symbol `t` is true, `nil` and the empty list are
false, any other symbol is its name, and a proper list is the list of its items' values. -/
def settingValue : Form → Except SettingFault Value
  | .symbol (.text "t") => .ok (.bool true)
  | .symbol value => .ok value
  | .nil | .emptyList => .ok (.bool false)
  | .integer value | .float value | .string value => .ok value
  | .cons head tail =>
    if tail.isProperList then do
      let first ← settingValue head
      let others ← settingValues tail
      return .list (first :: others)
    else .error ⟨.token (.cons head tail)⟩
  | other => .error ⟨.token other⟩

/-- The values of the items along a chain. The first item without one decides the fault. -/
def settingValues : Form → Except SettingFault (List Value)
  | .cons head tail => do
    let first ← settingValue head
    let others ← settingValues tail
    return first :: others
  | _ => .ok []

end

end Token

/-- The value of a setting. Only tokens have one. -/
def Value.settingValue : Value → Except SettingFault Value
  | .token form => form.settingValue
  | other => .error ⟨other⟩

end LispReader
