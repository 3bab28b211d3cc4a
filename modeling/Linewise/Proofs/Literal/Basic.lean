import Mathlib
import Linewise.Proofs.Wire.Literal
import Linewise.Syntax.Resolve
import Linewise.Value.Basic

/-!
# Literals

The values that can be written down in a script: nothing, truth values, texts, lists of such values
and all integers but the smallest one (`Value.IsLiteral`). An integer is written as a sign and
digits, and the digits of the smallest one are too large to be an integer of their own.

A literal is read as a tree in which the sign is still an operator (`Value.tree`). It becomes the
expression that the literal is the value of (`Value.literal`) when the digits have been resolved and
the signs folded (`Value.IsLiteral.exists_resolve_tree`).
-/

namespace Linewise

/-! ## Digits -/

namespace Numeral

/-- The digits of a number are read as the number. -/
theorem digits?_toDigits (n : Nat) : digits? (Nat.toDigits 10 n) = some n := by
  have hne : (Nat.toDigits 10 n).isEmpty = false :=
    List.isEmpty_eq_false_iff.2 Nat.toDigits_ne_nil
  have hall : (Nat.toDigits 10 n).all Char.isDigit = true :=
    List.all_eq_true.2 (Wire.Json.isDigit_toDigits n)
  rw [digits?, hne, hall, Wire.Json.value_toDigits]
  rfl

/-- The digits of a number that is not too large are read as that number. -/
theorem int64?_toDigits {n : Nat} (hn : n < 2 ^ 63) :
    int64? (String.ofList (Nat.toDigits 10 n)) = some (Int64.ofInt n) := by
  have hdigits := digits?_toDigits n
  have hrange : Int64.minValue.toInt ≤ (n : Int) ∧ (n : Int) ≤ Int64.maxValue.toInt := by
    rw [Int64.toInt_minValue, Int64.toInt_maxValue]
    omega
  rw [int64?, String.toList_ofList]
  cases hds : Nat.toDigits 10 n with
  | nil => exact absurd hds Nat.toDigits_ne_nil
  | cons d ds =>
    have hd : d.isDigit = true := Wire.Json.isDigit_toDigits n d (hds ▸ .head _)
    rw [hds] at hdigits
    split
    next heq => cases heq; cases hd
    next heq => cases heq; cases hd
    next =>
      simp only [hdigits, Option.map_some]
      rw [Option.filter_some, if_pos (by simpa using hrange)]
      rfl

end Numeral

namespace Value

variable {φ : Type}

/-- The digits of an integer, without its sign. -/
def digits (n : Int64) : String := String.ofList (Nat.toDigits 10 n.toInt.natAbs)

/-- All integers but the smallest one are integers without their sign, too. -/
theorem natAbs_toInt_lt {n : Int64} (hn : n ≠ Int64.minValue) : n.toInt.natAbs < 2 ^ 63 := by
  have hle := n.le_toInt
  have hlt := n.toInt_lt
  have hne : n.toInt ≠ -2 ^ 63 := fun heq =>
    hn (Int64.toInt_inj.1 (heq.trans Int64.toInt_minValue.symm))
  omega

theorem resolve_digits {n : Int64} (hn : n ≠ Int64.minValue) (line : Line) :
    Digits.resolve ⟨digits n, line⟩ = .ok (Int64.ofInt n.toInt.natAbs) := by
  rw [Digits.resolve, digits, Numeral.int64?_toDigits (natAbs_toInt_lt hn)]

/-! ## Literals and their trees -/

/-- A value that can be written down, with at most `most` lists inside of each other. -/
inductive IsLiteral : (most : Nat) → Value φ → Prop
  | none {most : Nat} : IsLiteral most .none
  | bool {most : Nat} (b : Bool) : IsLiteral most (.bool b)
  | int {most : Nat} {n : Int64} (hn : n ≠ Int64.minValue) : IsLiteral most (.int n)
  | str {most : Nat} (s : String) : IsLiteral most (.str s)
  | list {most : Nat} {items : List (Value φ)} (h : ∀ v ∈ items, IsLiteral most v) :
      IsLiteral (most + 1) (.list items)

mutual

/-- The expression that stands for a literal. -/
def literal : Value φ → Expr Int64
  | none => .none
  | bool b => .bool b
  | int n => .int n
  | float x => .float x
  | str s => .str s
  | list items => .list (literals items)
  | function _ | builtin _ => .none

/-- The expressions that stand for some literals. -/
def literals : List (Value φ) → List (Expr Int64)
  | [] => []
  | item :: rest => item.literal :: literals rest

end

mutual

/-- What is read of a literal on a line, where the sign of an integer is an operator. -/
def tree (line : Line) : Value φ → Expr Digits
  | none => .none
  | bool b => .bool b
  | int n => if n.toInt < 0 then .unary .neg (.int ⟨digits n, line⟩) else .int ⟨digits n, line⟩
  | float x => .float x
  | str s => .str s
  | list items => .list (trees line items)
  | function _ | builtin _ => .none

/-- What is read of some literals on a line. -/
def trees (line : Line) : List (Value φ) → List (Expr Digits)
  | [] => []
  | item :: rest => item.tree line :: trees line rest

end

namespace IsLiteral

variable {most : Nat} {v : Value φ}

/-- Resolved and folded, the tree of an integer is the integer. -/
theorem exists_resolve_int {n : Int64} (hn : n ≠ Int64.minValue) (line : Line) :
    ∃ e, (tree line (.int n : Value φ)).resolve = .ok e ∧ e.fold = .int n := by
  rw [tree]
  split
  next hneg =>
    refine ⟨.unary .neg (.int (Int64.ofInt n.toInt.natAbs)), ?_, ?_⟩
    · simp only [Expr.resolve, resolve_digits hn]
      rfl
    · have hsign : -(n.toInt.natAbs : Int) = n.toInt := by omega
      simp only [Expr.fold, Expr.negate]
      rw [← Int64.ofInt_neg, hsign, Int64.ofInt_toInt]
  next hpos =>
    refine ⟨.int (Int64.ofInt n.toInt.natAbs), ?_, ?_⟩
    · simp only [Expr.resolve, resolve_digits hn]
      rfl
    · have hsign : (n.toInt.natAbs : Int) = n.toInt := by omega
      rw [Expr.fold, hsign, Int64.ofInt_toInt]

/-- The trees of some literals become the literals once signs are folded, if each of them does. -/
theorem exists_resolve_trees {items : List (Value φ)} {line : Line}
    (h : ∀ v ∈ items, ∃ e, (v.tree line).resolve = .ok e ∧ e.fold = v.literal) :
    ∃ es, Expr.resolveItems (trees line items) = .ok es ∧
      Expr.foldItems es = literals items := by
  induction items with
  | nil => exact ⟨[], rfl, rfl⟩
  | cons item rest ih =>
    obtain ⟨⟨e, he, hfold⟩, hrest⟩ := List.forall_mem_cons.1 h
    obtain ⟨es, hes, hfolds⟩ := ih hrest
    refine ⟨e :: es, ?_, ?_⟩
    · simp only [trees, Expr.resolveItems, he, hes]
      rfl
    · rw [Expr.foldItems, hfold, hfolds, literals]

/-- Resolved and folded, the tree of a literal is the expression that stands for it. -/
theorem exists_resolve_tree (h : v.IsLiteral most) (line : Line) :
    ∃ e, (v.tree line).resolve = .ok e ∧ e.fold = v.literal := by
  induction h with
  | none => exact ⟨.none, rfl, rfl⟩
  | bool b => exact ⟨.bool b, rfl, rfl⟩
  | int hn => exact exists_resolve_int hn line
  | str s => exact ⟨.str s, rfl, rfl⟩
  | list _ ih =>
    obtain ⟨es, hes, hfolds⟩ := exists_resolve_trees ih
    refine ⟨.list es, ?_, ?_⟩
    · simp only [tree, Expr.resolve, hes]
      rfl
    · rw [Expr.fold, hfolds, literal]

end IsLiteral

end Value

end Linewise
