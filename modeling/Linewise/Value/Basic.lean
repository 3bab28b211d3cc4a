import Linewise.Builtin.Basic
import Linewise.Decimal.Shortest
import Linewise.Fault

/-!
# Values

The values that scripts compute with. They are immutable: a list inside a value is part of it, so
copying a value never shares anything that could change.

A script function is a value too. What it consists of depends on how scripts are executed, so
values are generic in a type `φ` of functions, of which only a name and an identity are used
(`FunctionHandle`): two functions are equal exactly when they come from the same definition.
-/

namespace Linewise

/-- What values need to know about script functions. -/
class FunctionHandle (φ : Type) where
  /-- The name of the definition. -/
  name : φ → String
  /-- The number that tells the definition from every other one of its script. -/
  ident : φ → Nat

/-- A value of the script language, with script functions from `φ`. -/
inductive Value (φ : Type) where
  | none
  | bool (b : Bool)
  | int (n : Int64)
  | float (x : Float)
  | str (s : String)
  | list (items : List (Value φ))
  | function (f : φ)
  | builtin (b : Builtin)

namespace Value

variable {φ : Type}

instance : Inhabited (Value φ) := ⟨.none⟩

/-- The kind of a value. -/
def kind : Value φ → ValueKind
  | none => .none
  | bool _ => .bool
  | int _ => .int
  | float _ => .float
  | str _ => .str
  | list _ => .list
  | function _ => .function
  | builtin _ => .builtin

/-- How a value counts as a condition: nothing, zero and what is empty are false. -/
def isTruthy : Value φ → Bool
  | none => false
  | bool b => b
  | int n => n ≠ 0
  | float x => x != 0.0
  | str s => !s.isEmpty
  | list items => !items.isEmpty
  | function _ | builtin _ => true

/-- The truth values as the integers one and zero. -/
def ofBit (b : Bool) : Int64 := if b then 1 else 0

/-- The floating-point number nearest to an integer, the even one of two that are as near. -/
def floatOf (n : Int64) : Float := .ofModel (.ofInt64 n)

/-- The greatest whole number that is not above a floating-point number. -/
def floorOf (x : Float) : Float :=
  match x.toModel.unpack with
  | .finite sign mantissa exponent _ =>
    if exponent < 0 then
      .ofModel (.ofInt (Int.fdiv (sign.apply mantissa) (Nat.pow 2 exponent.natAbs)))
    else x
  | _ => x

/-- The floating-point number that a number or a truth value stands for. -/
def toFloat? : Value φ → Option Float
  | int n => some (floatOf n)
  | float x => some x
  | bool b => some (if b then 1.0 else 0.0)
  | _ => Option.none

/-- The integer that an integer or a truth value stands for. -/
def toInt? : Value φ → Option Int64
  | int n => some n
  | bool b => some (ofBit b)
  | _ => Option.none

/-! ## Texts -/

/-- The text of a floating-point number. Whole numbers below `10 ^ 16` are written out with one
    zero after the point, all others with the fewest digits that read back, and no number has an
    exponent. -/
def floatText (x : Float) : String :=
  if x.isNaN then "nan"
  else
    let bits := x.toBits
    let sign := if bits >>> 63 = 1 then "-" else ""
    if x.isInf then sign ++ "inf"
    else
      let magnitude := Decimal.Magnitude.ofBits bits
      match magnitude.whole? with
      | some n =>
        if n < 10000000000000000 then sign ++ toString n ++ ".0"
        else sign ++ magnitude.shortest.positional
      | Option.none => sign ++ magnitude.shortest.positional

/-- The characters that stand for one character of a quoted string. -/
def quoteChar (quote c : Char) : List Char :=
  if c = '\n' then ['\\', 'n']
  else if c = '\t' then ['\\', 't']
  else if c = '\r' then ['\\', 'r']
  else if c = '\\' || c = quote then ['\\', c]
  else [c]

/-- The quote that a string is written in: double quotes only where they save the escaping of
    single ones. -/
def quoteFor (s : String) : Char :=
  if s.toList.contains '\'' && !s.toList.contains '"' then '"' else '\''

/-- The string in quotes, as it stands inside of a list. -/
def quoted (s : String) : String :=
  let quote := quoteFor s
  String.ofList (quote :: (s.toList.flatMap (quoteChar quote) ++ [quote]))

variable [FunctionHandle φ]

mutual

/-- The text of a value, where `nested` tells whether it stands inside of a list. -/
def text (nested : Bool) : Value φ → String
  | none => "None"
  | bool true => "True"
  | bool false => "False"
  | int n => toString n.toInt
  | float x => floatText x
  | str s => if nested then quoted s else s
  | list items => listText items
  | function f => s!"<function {FunctionHandle.name f}>"
  | builtin b => s!"<built-in function {b.name}>"

/-- The text of a list: its items in brackets. -/
def listText : List (Value φ) → String
  | [] => "[]"
  | item :: rest => itemsText ("[" ++ item.text true) rest ++ "]"

/-- The text `written`, followed by the texts of more items. -/
def itemsText (written : String) : List (Value φ) → String
  | [] => written
  | item :: rest => itemsText (written ++ ", " ++ item.text true) rest

end

/-- The text of a value as scripts print it. -/
def display (v : Value φ) : String := v.text false

/-- The text of a value with strings in quotes, as it stands inside of a list. -/
def repr (v : Value φ) : String := v.text true

end Value

end Linewise
