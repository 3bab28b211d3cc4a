import Linewise.Decimal.Reading
import Linewise.Text

/-!
# Scalars

The values that settings are given, before anybody asks whether they are numbers. All settings are
counts of sixty-four bits. A text counts if it spells one, or says yes or no; a truth value counts
as one or zero, and a fraction as the nearest count there is.
-/

namespace Linewise

/-- A value given to a setting. -/
inductive Scalar
  | text (s : String)
  | bool (b : Bool)
  | int (n : Int64)
  | float (x : Float)

namespace Scalar

/-- The count that a value means. Halves are rounded up; a fraction that is too small, or not a
    number, means zero. -/
def count? : Scalar → Option Nat
  | text s =>
    match s.toLower with
    | "true" | "on" | "yes" => some 1
    | "false" | "off" | "no" => some 0
    | _ => Numeral.word64? s
  | bool b => some b.toNat
  | int n => if 0 ≤ n.toInt then some n.toInt.toNat else none
  | float x => some x.round.toUInt64.toNat

/-- The value that the text of a variable of the environment means. -/
def ofVariable (value : String) : Scalar :=
  match value.toLower with
  | "true" => bool true
  | "false" => bool false
  | _ =>
    match Numeral.int64? value with
    | some n => int n
    | none =>
      match Decimal.read? value with
      | some x => float x
      | none => text value

end Scalar

end Linewise
