import Linewise.Fault
import Linewise.Value.Order

/-!
# Operators on values

Integers are those of sixty-four bits: an operation on two of them gives the exact result or
faults when it does not fit. Division of integers rounds towards the lower integer, and the
remainder has the sign of the divisor. Every other pair of numbers, truth values included, is
computed in floating point. Texts and lists can be joined and repeated.
-/

namespace Linewise.Value

variable {φ : Type}

/-- The most items, or bytes of text, that a repetition may build. -/
def longestRepetition : Nat := 10000000

/-- An exact integer result, which faults when it does not fit. -/
def exact (n : Int) : Except Cause (Value φ) :=
  if Int64.minValue.toInt ≤ n ∧ n ≤ Int64.maxValue.toInt then .ok (int (Int64.ofInt n))
  else .error .overflow

/-- The operands as floating-point numbers. -/
def floatPair (op : BinaryOp) (v w : Value φ) : Except Cause (Float × Float) :=
  match v.toFloat?, w.toFloat? with
  | some x, some y => .ok (x, y)
  | _, _ => .error (.badOperands op v.kind w.kind)

/-- An operation that is exact on integers and else in floating point. -/
def arithmetic (op : BinaryOp) (onInt : Int → Int → Int) (onFloat : Float → Float → Float)
    (v w : Value φ) : Except Cause (Value φ) :=
  match v, w with
  | int m, int n => exact (onInt m.toInt n.toInt)
  | _, _ => do
    let (x, y) ← floatPair op v w
    return float (onFloat x y)

/-- How often a sequence of `size` units is repeated, which faults when that gets too long. -/
def repeatCount (n : Int64) (size : Nat) : Except Cause Nat :=
  let count := n.toInt.toNat
  if size * count > longestRepetition then .error .longRepetition else .ok count

/-- A list that is being made of copies of some items: what there is of it, and how many copies
    it holds. -/
structure Repetition (φ : Type) where
  built : Array (Value φ)
  copies : Nat

namespace Repetition

/-- A list that has not been begun. -/
def empty : Repetition φ := ⟨#[], 0⟩

/-- The list with one more copy at its end. -/
def append (items : Array (Value φ)) (repetition : Repetition φ) : Repetition φ :=
  ⟨repetition.built ++ items, repetition.copies + 1⟩

/-- The list after one copy after the other, until there are `count` of them. A copy of nothing
    counts like any other. -/
def extend (items : Array (Value φ)) (count : Nat) (repetition : Repetition φ) : Repetition φ :=
  if repetition.copies < count then extend items count (repetition.append items) else repetition
termination_by count - repetition.copies
decreasing_by
  dsimp only [append]
  omega

variable {items : Array (Value φ)} {count : Nat} {repetition : Repetition φ}

/-- All copies that are asked for are made. -/
theorem copies_extend (h : repetition.copies ≤ count) :
    (repetition.extend items count).copies = count := by
  fun_induction extend items count repetition with
  | case1 repetition hlt ih => exact ih hlt
  | case2 repetition hge => exact Nat.le_antisymm h (Nat.not_lt.1 hge)

/-- The list gets the copies that it lacks. -/
theorem toList_built_extend : (repetition.extend items count).built.toList =
    repetition.built.toList ++
      (List.replicate (count - repetition.copies) items.toList).flatten := by
  fun_induction extend items count repetition with
  | case1 repetition hlt ih =>
    have hlacks : count - repetition.copies = count - (repetition.copies + 1) + 1 := by omega
    rw [ih, hlacks, List.replicate_succ, List.flatten_cons]
    simp [append]
  | case2 repetition hge => simp [Nat.sub_eq_zero_of_le (Nat.not_lt.1 hge)]

end Repetition

/-- The items, `count` times in sequence. -/
def repeatItems (items : List (Value φ)) (count : Nat) : List (Value φ) :=
  (Repetition.empty.extend items.toArray count).built.toList

theorem repeatItems_eq (items : List (Value φ)) (count : Nat) :
    repeatItems items count = (List.replicate count items).flatten := by
  rw [repeatItems, Repetition.toList_built_extend]
  simp [Repetition.empty]

/-- The text, `count` times in sequence. -/
def repeatText (s : String) (count : Nat) : String :=
  if s.isEmpty then "" else String.join (List.replicate count s)

/-- A sum of numbers, or two texts or two lists in sequence. -/
def add : Value φ → Value φ → Except Cause (Value φ)
  | str s, str t => .ok (str (s ++ t))
  | list xs, list ys => .ok (list (xs ++ ys))
  | v, w => arithmetic .add (· + ·) (· + ·) v w

/-- A product of numbers, or a repeated text or list. -/
def multiply : Value φ → Value φ → Except Cause (Value φ)
  | str s, int n | int n, str s => do
    return str (repeatText s (← repeatCount n s.utf8ByteSize))
  | list items, int n | int n, list items => do
    return list (repeatItems items (← repeatCount n items.length))
  | v, w => arithmetic .mul (· * ·) (· * ·) v w

/-- The operands of a division in floating point, which faults when the divisor is zero. -/
def divisionPair (op : BinaryOp) (division : Division) (v w : Value φ) :
    Except Cause (Float × Float) := do
  let (x, y) ← floatPair op v w
  if y == 0.0 then .error (.zeroDivision division) else .ok (x, y)

/-- A quotient, always in floating point. -/
def divide (v w : Value φ) : Except Cause (Value φ) := do
  let (x, y) ← divisionPair .div .quotient v w
  return float (x / y)

/-- A quotient rounded towards the lower whole number. -/
def floorDivide : Value φ → Value φ → Except Cause (Value φ)
  | int m, int n =>
    if n = 0 then .error (.zeroDivision .integer) else exact (Int.fdiv m.toInt n.toInt)
  | v, w => do
    let (x, y) ← divisionPair .floorDiv .floatFloor v w
    return float (floorOf (x / y))

/-- The remainder of the quotient that is rounded towards the lower whole number. -/
def modulo : Value φ → Value φ → Except Cause (Value φ)
  | int m, int n =>
    if n = 0 then .error (.zeroDivision .integer) else exact (Int.fmod m.toInt n.toInt)
  | v, w => do
    let (x, y) ← divisionPair .mod .floatRemainder v w
    return float (x - y * floorOf (x / y))

/-- A unary operator on an evaluated operand. -/
def applyUnary : UnaryOp → Value φ → Except Cause (Value φ)
  | .not, v => .ok (bool (!v.isTruthy))
  | .neg, int n => exact (-n.toInt)
  | .neg, float x => .ok (float (-x))
  | .neg, bool b => .ok (int (-ofBit b))
  | .neg, v => .error (.badNegation v.kind)

variable [FunctionHandle φ]

/-- A comparison that asks whether the order of its operands is one of some orders. -/
def ordered (op : BinaryOp) (accepts : Ordering → Bool) (v w : Value φ) :
    Except Cause (Value φ) :=
  match compare v w with
  | some order => .ok (bool (accepts order))
  | Option.none => .error (.unordered op.symbol v.kind w.kind)

/-- A binary operator on evaluated operands. -/
def applyBinary (op : BinaryOp) (v w : Value φ) : Except Cause (Value φ) :=
  match op with
  | .eq => .ok (bool (equal v w))
  | .ne => .ok (bool (!equal v w))
  | .lt => ordered op (· == .lt) v w
  | .le => ordered op (· != .gt) v w
  | .gt => ordered op (· == .gt) v w
  | .ge => ordered op (· != .lt) v w
  | .add => add v w
  | .sub => arithmetic .sub (· - ·) (· - ·) v w
  | .mul => multiply v w
  | .div => divide v w
  | .floorDiv => floorDivide v w
  | .mod => modulo v w

end Linewise.Value
