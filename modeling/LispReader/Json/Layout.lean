import LispReader.Decimal.Format
import LispReader.Json.Quoted

/-!
The layout of a JSON text: what stands between items and behind keys, how deeper levels are
indented, and which of the optional rules hold. A caller gives `Options`; the layout is what
follows from them.
-/

namespace LispReader.Json

/-- How deeper levels are indented. -/
inductive Indent where
  /-- By a number of spaces, by none if the number is not positive. -/
  | width (count : Int)
  | text (unit : String)
  deriving Repr, DecidableEq

/-- The text by which one level is indented. -/
def Indent.unit : Indent → String
  | .width count => String.ofList (List.replicate count.toNat ' ')
  | .text unit => unit

/-- What a caller may ask of a writer. -/
structure Options where
  asciiOnly : Bool := true
  /-- What stands between items, and what stands behind a key. -/
  separators : Option (String × String) := none
  /-- Levels are indented, and items stand on lines of their own. -/
  indent : Option Indent := none
  sortKeys : Bool := false
  /-- Infinite doubles, and those that are no number, are refused. -/
  finiteOnly : Bool := false
  deriving Repr, DecidableEq

/-- How a JSON text is laid out. -/
structure Layout where
  asciiOnly : Bool := true
  itemSeparator : String := ", "
  keySeparator : String := ": "
  indent : Option String := none
  sortKeys : Bool := false
  finiteOnly : Bool := false
  /-- Whether tokens are written, as their records. -/
  records : Bool := true
  /-- Whether the refusal of a double shows it. -/
  showsRefused : Bool := false
  deriving Repr, DecidableEq

/-- The layout that options ask for. Lines make the blank behind a comma needless, so it is
missing from an indented text unless separators are given. -/
def Options.layout (options : Options) : Layout where
  asciiOnly := options.asciiOnly
  itemSeparator :=
    match options.separators with
    | some (item, _) => item
    | none => if options.indent.isSome then "," else ", "
  keySeparator :=
    match options.separators with
    | some (_, key) => key
    | none => ": "
  indent := options.indent.map Indent.unit
  sortKeys := options.sortKeys
  finiteOnly := options.finiteOnly

/-- Doubles are written as everywhere, and the others have names of their own. -/
def floatFormat : Decimal.FloatFormat :=
  { Decimal.FloatFormat.standard with nan := "NaN", infinity := "Infinity" }

namespace Layout

def quote (layout : Layout) (text : String) : String :=
  Json.quote layout.asciiOnly text

/-- What begins a line at a level. There are no lines without indentation. -/
def lineStart (layout : Layout) (level : Nat) : String :=
  match layout.indent with
  | some unit => "\n" ++ String.join (List.replicate level unit)
  | none => ""

/-- Written items between brackets that stand at a level. -/
def bracket (layout : Layout) (level : Nat) (opening closing : String) (items : List String) :
    String :=
  if items.isEmpty then opening ++ closing
  else
    let inner := layout.lineStart (level + 1)
    opening ++ inner ++ (layout.itemSeparator ++ inner).intercalate items ++
      layout.lineStart level ++ closing

end Layout

end LispReader.Json
