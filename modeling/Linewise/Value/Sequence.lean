import Linewise.Fault
import Linewise.Value.Order

/-!
# Sequences of values

Lengths, ranges of integers, first extreme items and lists with one more item.

A range runs from a start in steps towards a stop that it leaves out. Its length is computed from
the distance between the two, which saturates at the bounds of the integers, as its items do.
-/

namespace Linewise.Value

variable {φ : Type}

/-- The most items that a range may have. -/
def longestRange : Nat := 10000000

/-- The number of characters of a text or of items of a list. -/
def length : Value φ → Except Cause (Value φ)
  | str s => .ok (int (Int64.ofNat s.length))
  | list items => .ok (int (Int64.ofNat items.length))
  | v => .error (.noLength v.kind)

/-- The sixty-four-bit integer nearest to a number. -/
def saturate (n : Int) : Int :=
  max Int64.minValue.toInt (min n Int64.maxValue.toInt)

/-- The number of items of a range. -/
def rangeCount (start stop step : Int) : Nat :=
  let span := saturate (if step > 0 then stop - start else start - stop)
  if span ≤ 0 then 0 else ((span - 1) / saturate step.natAbs + 1).toNat

/-- The first `count` items of a range. -/
def rangeItems (start step : Int) (count : Nat) : List (Value φ) :=
  (List.range count).map fun (k : Nat) => int (Int64.ofInt (saturate (start + k * step)))

/-- A bound or the step of a range. -/
def rangeArgument (v : Value φ) : Except Cause Int :=
  match v.toInt? with
  | some n => .ok n.toInt
  | Option.none => .error (.notInteger v.kind)

/-- The start, the stop and the step that the arguments of a range give. -/
def rangeBounds : List Int → Except Cause (Int × Int × Int)
  | [stop] => .ok (0, stop, 1)
  | [start, stop] => .ok (start, stop, 1)
  | [start, stop, step] => .ok (start, stop, step)
  | args => .error (.rangeArity args.length)

/-- The range between given bounds. -/
def range (args : List (Value φ)) : Except Cause (Value φ) := do
  let (start, stop, step) ← rangeBounds (← args.mapM rangeArgument)
  if step = 0 then .error .zeroStep
  else if rangeCount start stop step > longestRange then .error .longRange
  else return list (rangeItems start step (rangeCount start stop step))

/-- A list with one more item at its end. -/
def append : List (Value φ) → Except Cause (Value φ)
  | [list items, item] => .ok (list (items ++ [item]))
  | [v, _] => .error (.notList v.kind)
  | _ => .error .appendArity

/-! ## Extremes -/

/-- A direction in which an extreme value lies. -/
inductive Extreme
  | least
  | greatest
  deriving DecidableEq

namespace Extreme

/-- The function that picks an extreme value. -/
def builtin : Extreme → Builtin
  | least => .min
  | greatest => .max

/-- The comparison that an extreme value wins. -/
def symbol : Extreme → String
  | least => "<"
  | greatest => ">"

/-- The order of a better candidate to a worse one. -/
def order : Extreme → Ordering
  | least => .lt
  | greatest => .gt

end Extreme

/-- The values that an extreme is picked from: the items of a list that is the only argument, else
    the arguments themselves. -/
def candidates : List (Value φ) → Except Cause (List (Value φ))
  | [list items] => .ok items
  | [v] => .error (.notIterable v.kind)
  | args => .ok args

variable [FunctionHandle φ]

/-- The better of the best candidate so far and the next one, which has to be strictly better. -/
def better (extreme : Extreme) (best candidate : Value φ) : Except Cause (Value φ) :=
  match compare candidate best with
  | some order => .ok (if order = extreme.order then candidate else best)
  | Option.none => .error (.unordered extreme.symbol candidate.kind best.kind)

/-- The first of the candidates that no later one is better than. -/
def pick (extreme : Extreme) (args : List (Value φ)) : Except Cause (Value φ) := do
  match ← candidates args with
  | [] => .error (.emptySequence extreme.builtin)
  | first :: rest => rest.foldlM (better extreme) first

end Linewise.Value
