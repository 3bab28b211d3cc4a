import Linewise.Value.Basic

/-!
# Equality and order of values

Two values are equal when they are the same text, the same function, lists of equal items, or
numbers of the same size, where truth values count as numbers and integers are compared with
floating-point numbers as floating-point numbers.

Numbers, texts and lists are ordered within their own sort, lists by the first items that are not
equal; no other two values are ordered.
-/

namespace Linewise.Value

variable {φ : Type} [FunctionHandle φ]

mutual

/-- The values are equal. -/
def equal : Value φ → Value φ → Bool
  | list xs, list ys => equalItems xs ys
  | str s, str t => s = t
  | none, none => true
  | function f, function g => FunctionHandle.ident f = FunctionHandle.ident g
  | builtin b, builtin c => b = c
  | int m, int n => m = n
  | v, w =>
    match v.toFloat?, w.toFloat? with
    | some x, some y => x == y
    | _, _ => false

/-- The lists have equally many items, and equal ones at each place. -/
def equalItems : List (Value φ) → List (Value φ) → Bool
  | [], [] => true
  | x :: xs, y :: ys => equal x y && equalItems xs ys
  | _, _ => false

end

/-- The order of two floating-point numbers, which only a NaN does not have. -/
def compareFloat (x y : Float) : Option Ordering :=
  if x < y then some .lt
  else if x == y then some .eq
  else if x > y then some .gt
  else Option.none

mutual

/-- The order of two values, if they have one. -/
def compare : Value φ → Value φ → Option Ordering
  | int m, int n => some (compareOfLessAndEq m n)
  | str s, str t => some (compareOfLessAndEq s t)
  | list xs, list ys => compareItems xs ys
  | v, w =>
    match v.toFloat?, w.toFloat? with
    | some x, some y => compareFloat x y
    | _, _ => Option.none

/-- The order of two lists: that of the first items that are not equal, else that of the
    lengths. -/
def compareItems : List (Value φ) → List (Value φ) → Option Ordering
  | [], [] => some .eq
  | [], _ :: _ => some .lt
  | _ :: _, [] => some .gt
  | x :: xs, y :: ys => if equal x y then compareItems xs ys else compare x y

end

end Linewise.Value
