import Linewise.Decimal.Reading
import Linewise.Fault
import Linewise.Text
import Linewise.Value.Basic

/-!
# Conversions of values

Numbers are converted into each other and read from texts, around which blanks do not count.
-/

namespace Linewise.Value

variable {φ : Type}

/-- The whole part of a number, or the integer that a text spells. A whole part that does not fit
    becomes the nearest integer that does. -/
def convertInt : Value φ → Except Cause (Value φ)
  | int n => .ok (int n)
  | bool b => .ok (int (ofBit b))
  | float x => if x.isFinite then .ok (int x.toInt64) else .error (.notFinite (floatText x))
  | str s =>
    match Numeral.int64? (Text.trim s) with
    | some n => .ok (int n)
    | Option.none => .error (.badIntText s)
  | v => .error (.badArgument .int v.kind)

/-- A number in floating point, or the number that a text spells. -/
def convertFloat : Value φ → Except Cause (Value φ)
  | str s =>
    match Decimal.read? (Text.trim s) with
    | some x => .ok (float x)
    | Option.none => .error (.badFloatText s)
  | v =>
    match v.toFloat? with
    | some x => .ok (float x)
    | Option.none => .error (.badArgument .float v.kind)

/-- The size of a number without its sign. -/
def absolute : Value φ → Except Cause (Value φ)
  | int n =>
    if n = Int64.minValue then .error .overflow else .ok (int (Int64.ofInt n.toInt.natAbs))
  | float x => .ok (float x.abs)
  | bool b => .ok (int (ofBit b))
  | v => .error (.badAbs v.kind)

end Linewise.Value
