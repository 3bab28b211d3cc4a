import Linewise.Builtin.Call
import Linewise.Value.Arithmetic
import Linewise.Value.Subscript

/-!
# Faults of operations

An operation on values can fault, but what has gone wrong then is in the script: it is never the
machine that has broken down (`Harmless`).

* operators: `Value.harmless_applyUnary`, `Value.harmless_applyBinary`;
* subscripts, replaced items and the items of a loop: `Value.harmless_subscript`,
  `Value.harmless_replaceAt`, `Value.harmless_iterate`;
* built-in functions: `Builtin.harmless_call`.
-/

namespace Linewise

variable {φ α β : Type}

/-- A computation that may fault, but not with a breakdown of the machine. -/
def Harmless (e : Except Cause α) : Prop := ∀ cause, e = .error cause → cause.kind ≠ .systemError

theorem harmless_ok {a : α} : Harmless (.ok a) := nofun

theorem harmless_error {cause : Cause} (h : cause.kind ≠ .systemError) :
    Harmless (.error cause : Except Cause α) := by
  rintro _ ⟨⟩
  exact h

/-- A choice is harmless if both of its sides are. -/
theorem harmless_ite {e e' : Except Cause α} {c : Prop} [Decidable c] (h : Harmless e)
    (h' : Harmless e') : Harmless (if c then e else e') := by
  split
  · exact h
  · exact h'

/-- One computation after the other is harmless if both are. -/
theorem Harmless.bind {e : Except Cause α} {f : α → Except Cause β} (h : Harmless e)
    (hf : ∀ a, Harmless (f a)) : Harmless (e >>= f) := by
  cases e with
  | ok a => exact hf a
  | error cause => exact harmless_error (h cause rfl)

/-- A computation for each of some items is harmless if each of them is. -/
theorem harmless_mapM {f : α → Except Cause β} (hf : ∀ a, Harmless (f a)) (items : List α) :
    Harmless (items.mapM f) := by
  induction items with
  | nil => exact harmless_ok
  | cons item rest ih =>
    rw [List.mapM_cons]
    exact (hf item).bind fun _ => ih.bind fun _ => harmless_ok

/-- A fold of harmless steps is harmless. -/
theorem harmless_foldlM {f : β → α → Except Cause β} (hf : ∀ b a, Harmless (f b a))
    (items : List α) (first : β) : Harmless (items.foldlM f first) := by
  induction items generalizing first with
  | nil => exact harmless_ok
  | cons item rest ih =>
    rw [List.foldlM_cons]
    exact (hf first item).bind ih

namespace Value

/-! ## Arithmetic -/

theorem harmless_exact {n : Int} : Harmless (exact n : Except Cause (Value φ)) := by
  rw [exact]
  exact harmless_ite harmless_ok (harmless_error nofun)

theorem harmless_floatPair {op : BinaryOp} {v w : Value φ} : Harmless (floatPair op v w) := by
  rw [floatPair]
  split
  · exact harmless_ok
  · exact harmless_error nofun

theorem harmless_arithmetic {op : BinaryOp} {onInt : Int → Int → Int}
    {onFloat : Float → Float → Float} {v w : Value φ} :
    Harmless (arithmetic op onInt onFloat v w) := by
  unfold arithmetic
  split
  · exact harmless_exact
  · exact harmless_floatPair.bind fun _ => harmless_ok

theorem harmless_repeatCount {n : Int64} {size : Nat} : Harmless (repeatCount n size) := by
  rw [repeatCount]
  exact harmless_ite (harmless_error nofun) harmless_ok

theorem harmless_add {v w : Value φ} : Harmless (add v w) := by
  unfold add
  split
  · exact harmless_ok
  · exact harmless_ok
  · exact harmless_arithmetic

/-- Products and repetitions fail by errors of the script alone. -/
theorem harmless_multiply {v w : Value φ} : Harmless (multiply v w) := by
  unfold multiply
  split
  · exact harmless_repeatCount.bind fun _ => harmless_ok
  · exact harmless_repeatCount.bind fun _ => harmless_ok
  · exact harmless_repeatCount.bind fun _ => harmless_ok
  · exact harmless_repeatCount.bind fun _ => harmless_ok
  · exact harmless_arithmetic

theorem harmless_divisionPair {op : BinaryOp} {division : Division} {v w : Value φ} :
    Harmless (divisionPair op division v w) := by
  refine harmless_floatPair.bind fun (x, y) => ?_
  exact harmless_ite (harmless_error nofun) harmless_ok

theorem harmless_floorDivide {v w : Value φ} : Harmless (floorDivide v w) := by
  unfold floorDivide
  split
  · exact harmless_ite (harmless_error nofun) harmless_exact
  · exact harmless_divisionPair.bind fun _ => harmless_ok

theorem harmless_modulo {v w : Value φ} : Harmless (modulo v w) := by
  unfold modulo
  split
  · exact harmless_ite (harmless_error nofun) harmless_exact
  · exact harmless_divisionPair.bind fun _ => harmless_ok

theorem harmless_applyUnary {op : UnaryOp} {v : Value φ} : Harmless (applyUnary op v) := by
  unfold applyUnary
  split
  · exact harmless_ok
  · exact harmless_exact
  · exact harmless_ok
  · exact harmless_ok
  · exact harmless_error nofun

section Handles

variable [FunctionHandle φ]

theorem harmless_ordered {op : BinaryOp} {accepts : Ordering → Bool} {v w : Value φ} :
    Harmless (ordered op accepts v w) := by
  rw [ordered]
  split
  · exact harmless_ok
  · exact harmless_error nofun

/-- No operator on two values fails for a reason of the machine. -/
theorem harmless_applyBinary {op : BinaryOp} {v w : Value φ} : Harmless (applyBinary op v w) := by
  cases op with
  | eq | ne => exact harmless_ok
  | lt | le | gt | ge => exact harmless_ordered
  | add => exact harmless_add
  | sub => exact harmless_arithmetic
  | mul => exact harmless_multiply
  | div => exact harmless_divisionPair.bind fun _ => harmless_ok
  | floorDiv => exact harmless_floorDivide
  | mod => exact harmless_modulo

end Handles

/-! ## Subscripts -/

theorem harmless_position {access : Access} {length : Nat} {index : Value φ} :
    Harmless (position access length index) := by
  rw [position]
  split
  · exact harmless_error nofun
  · exact harmless_ite harmless_ok (harmless_error nofun)

theorem harmless_subscript {v index : Value φ} : Harmless (subscript v index) := by
  unfold subscript
  split
  · exact harmless_position.bind fun _ => harmless_ok
  · exact harmless_position.bind fun _ => harmless_ok
  · exact harmless_error nofun

theorem harmless_replaceAt {v index item : Value φ} : Harmless (replaceAt v index item) := by
  unfold replaceAt
  split
  · exact harmless_position.bind fun _ => harmless_ok
  · exact harmless_error nofun

theorem harmless_iterate {v : Value φ} : Harmless v.iterate := by
  unfold iterate
  split
  · exact harmless_ok
  · exact harmless_ok
  · exact harmless_error nofun

/-! ## Built-in functions -/

theorem harmless_length {v : Value φ} : Harmless v.length := by
  unfold length
  split
  · exact harmless_ok
  · exact harmless_ok
  · exact harmless_error nofun

theorem harmless_rangeArgument {v : Value φ} : Harmless (rangeArgument v) := by
  rw [rangeArgument]
  split
  · exact harmless_ok
  · exact harmless_error nofun

theorem harmless_rangeBounds {args : List Int} : Harmless (rangeBounds args) := by
  unfold rangeBounds
  split
  · exact harmless_ok
  · exact harmless_ok
  · exact harmless_ok
  · exact harmless_error nofun

theorem harmless_range {args : List (Value φ)} : Harmless (range args) := by
  refine (harmless_mapM (fun _ => harmless_rangeArgument) args).bind fun _ =>
    harmless_rangeBounds.bind fun (start, stop, step) => ?_
  exact harmless_ite (harmless_error nofun) (harmless_ite (harmless_error nofun) harmless_ok)

theorem harmless_append {args : List (Value φ)} : Harmless (append args) := by
  unfold append
  split
  · exact harmless_ok
  · exact harmless_error nofun
  · exact harmless_error nofun

theorem harmless_candidates {args : List (Value φ)} : Harmless (candidates args) := by
  unfold candidates
  split
  · exact harmless_ok
  · exact harmless_error nofun
  · exact harmless_ok

/-- No pick among values fails for a reason of the machine. -/
theorem harmless_pick [FunctionHandle φ] {extreme : Extreme} {args : List (Value φ)} :
    Harmless (pick extreme args) := by
  have hbetter : ∀ best candidate : Value φ, Harmless (better extreme best candidate) := by
    intro best candidate
    rw [better]
    split
    · exact harmless_ok
    · exact harmless_error nofun
  refine harmless_candidates.bind fun items => ?_
  cases items with
  | nil => exact harmless_error nofun
  | cons first rest => exact harmless_foldlM hbetter rest first

/-- No conversion to an integer fails for a reason of the machine. -/
theorem harmless_convertInt {v : Value φ} : Harmless v.convertInt := by
  unfold convertInt
  split
  · exact harmless_ok
  · exact harmless_ok
  · exact harmless_ite harmless_ok (harmless_error nofun)
  · split
    · exact harmless_ok
    · exact harmless_error nofun
  · exact harmless_error nofun

theorem harmless_convertFloat {v : Value φ} : Harmless v.convertFloat := by
  unfold convertFloat
  split
  · split
    · exact harmless_ok
    · exact harmless_error nofun
  · split
    · exact harmless_ok
    · exact harmless_error nofun

theorem harmless_absolute {v : Value φ} : Harmless v.absolute := by
  unfold absolute
  split
  · exact harmless_ite (harmless_error nofun) harmless_ok
  · exact harmless_ok
  · exact harmless_ok
  · exact harmless_error nofun

end Value

namespace Builtin

/-- Only the number of arguments can be wrong about a single one. -/
theorem harmless_single {callee : Builtin} {args : List (Value φ)} :
    Harmless (single callee args) := by
  unfold single
  split
  · exact harmless_ok
  · exact harmless_error nofun

variable [FunctionHandle φ] {callee : Builtin} {args : List (Value φ)}

/-- No built-in function fails for a reason of the machine. -/
theorem harmless_value : Harmless (value callee args) := by
  cases callee with
  | print => exact harmless_ok
  | str | type => exact harmless_single.bind fun _ => harmless_ok
  | int => exact harmless_single.bind fun _ => Value.harmless_convertInt
  | float => exact harmless_single.bind fun _ => Value.harmless_convertFloat
  | len => exact harmless_single.bind fun _ => Value.harmless_length
  | abs => exact harmless_single.bind fun _ => Value.harmless_absolute
  | range => exact Value.harmless_range
  | min | max => exact Value.harmless_pick
  | append => exact Value.harmless_append

theorem harmless_call : Harmless (call callee args) :=
  harmless_value.bind fun _ => harmless_ok

end Builtin

end Linewise
