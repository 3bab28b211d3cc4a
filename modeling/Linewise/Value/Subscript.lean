import Linewise.Fault
import Linewise.Value.Basic

/-!
# Subscripts

Lists and texts have items at the positions from zero on, and a negative position counts from the
end. A list with one item replaced is a new value; a text has no items that can be replaced.
-/

namespace Linewise.Value

variable {φ : Type}

/-- The position that a subscript names in a sequence of a given length. -/
def position (access : Access) (length : Nat) (index : Value φ) : Except Cause Nat :=
  match index.toInt? with
  | Option.none => .error (.badIndex access index.kind)
  | some n =>
    let place := if n.toInt < 0 then n.toInt + length else n.toInt
    if 0 ≤ place ∧ place < length then .ok place.toNat else .error (.outOfRange access)

/-- The item of a list or the character of a text at a position. -/
def subscript : Value φ → Value φ → Except Cause (Value φ)
  | list items, index => do
    return items.getD (← position .listItem items.length index) none
  | str s, index => do
    let chars := s.toList
    return str (String.singleton (chars.getD (← position .character chars.length index) ' '))
  | object, _ => .error (.notSubscriptable object.kind)

/-- A list with the item at a position replaced. -/
def replaceAt : Value φ → Value φ → Value φ → Except Cause (Value φ)
  | list items, index, item => do
    return list (items.set (← position .listAssignment items.length index) item)
  | object, _, _ => .error (.notAssignable object.kind)

/-- What a loop over a value goes through: the items of a list or the characters of a text. -/
def iterate : Value φ → Except Cause (List (Value φ))
  | list items => .ok items
  | str s => .ok (s.toList.map fun c => str (String.singleton c))
  | v => .error (.notIterable v.kind)

end Linewise.Value
