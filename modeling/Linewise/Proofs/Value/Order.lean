import Linewise.Code.Basic
import Linewise.Proofs.Value.Map
import Linewise.Value.Order

/-!
# Equality and order of plain values

A value is *plain* when it has no truth value and no floating-point number in it, at any depth of
its lists (`Value.IsPlain`). Those are compared as floating-point numbers; all other comparisons are
exact, and so they cohere (`Value.equal_compare_coherent`):

* plain values are equal just when they are the same once every function is replaced by the number
  of its definition (`IsPlain.equal_iff`), so equality is an equivalence relation;
* values that have an order have the reverse one when they are exchanged (`IsPlain.compare_swap`),
  and are equal just when it is that of equals (`IsPlain.equal_of_compare`,
  `IsPlain.eq_of_compare_of_equal`);
* the order is transitive (`IsPlain.compare_trans`), and cannot tell equal values apart
  (`IsPlain.compare_congr`).

Lists are ordered by their first items that are not equal. These may have no order, and then the
lists have none, even though items behind them might. What holds of two lists follows from what
holds of their items, without looking into these (`compareItems_swap` and the like).
-/

namespace Linewise.Value

/-! ## Integers and texts -/

section Linear

variable {α : Type} [LT α] [LE α] [Std.LawfulOrderLT α] [Std.IsLinearOrder α] [DecidableLT α]
  [DecidableEq α] {x y z : α}

theorem compareOfLessAndEq_swap : compareOfLessAndEq y x = (compareOfLessAndEq x y).swap :=
  compareOfLessAndEq_eq_swap Std.le_antisymm (fun _ _ => Std.le_total) Std.not_le

omit [Std.IsLinearOrder α] in
theorem compareOfLessAndEq_self : compareOfLessAndEq x x = .eq := by
  rw [compareOfLessAndEq, if_neg Std.lt_irrefl, if_pos rfl]

omit [LE α] [Std.LawfulOrderLT α] [Std.IsLinearOrder α] in
theorem eq_of_compareOfLessAndEq (h : compareOfLessAndEq x y = .eq) : x = y := by
  rw [compareOfLessAndEq] at h
  split at h
  · cases h
  · split at h
    next heq => exact heq
    · cases h

theorem compareOfLessAndEq_trans (hxy : compareOfLessAndEq x y = .lt)
    (hyz : compareOfLessAndEq y z = .lt) : compareOfLessAndEq x z = .lt := by
  rw [compareOfLessAndEq_eq_lt] at *
  exact Std.lt_trans hxy hyz

end Linear

/-! ## Plain values -/

variable {φ : Type}

/-- A value without truth values and floating-point numbers. -/
inductive IsPlain : Value φ → Prop
  | none : IsPlain .none
  | int (n : Int64) : IsPlain (.int n)
  | str (s : String) : IsPlain (.str s)
  | list {items : List (Value φ)} (h : ∀ v ∈ items, IsPlain v) : IsPlain (.list items)
  | function (f : φ) : IsPlain (.function f)
  | builtin (b : Builtin) : IsPlain (.builtin b)

variable [FunctionHandle φ] {u v w : Value φ} {xs ys zs : List (Value φ)}

/-! ## Lists -/

/-- Lists are equal when their items correspond, if that is so for the items. -/
theorem equalItems_iff {ψ : Type} {f : φ → ψ}
    (h : ∀ x ∈ xs, ∀ y ∈ ys, equal x y = true ↔ x.map f = y.map f) :
    equalItems xs ys = true ↔ xs.map (map f) = ys.map (map f) := by
  induction xs generalizing ys with
  | nil => cases ys <;> simp [equalItems]
  | cons x xs ih =>
    cases ys with
    | nil => simp [equalItems]
    | cons y ys =>
      obtain ⟨hx, hxs⟩ := List.forall_mem_cons.1 h
      have hrest := ih fun x hx y hy => hxs x hx y (List.mem_cons_of_mem _ hy)
      rw [equalItems, Bool.and_eq_true, hx y List.mem_cons_self, hrest, List.map_cons,
        List.map_cons, List.cons.injEq]

/-- The order of two lists is mirrored when that of their items is. -/
theorem compareItems_swap
    (h : ∀ x ∈ xs, ∀ y ∈ ys, equal y x = equal x y ∧
      compare y x = (compare x y).map Ordering.swap) :
    compareItems ys xs = (compareItems xs ys).map Ordering.swap := by
  induction xs generalizing ys with
  | nil => cases ys <;> rfl
  | cons x xs ih =>
    cases ys with
    | nil => rfl
    | cons y ys =>
      obtain ⟨hx, hxs⟩ := List.forall_mem_cons.1 h
      obtain ⟨hequal, hcompare⟩ := hx y List.mem_cons_self
      have hrest := ih fun x hx y hy => hxs x hx y (List.mem_cons_of_mem _ hy)
      rw [compareItems, compareItems, hequal, hcompare, hrest]
      split <;> rfl

/-- Equal lists have the order of equals, also when their items have none. -/
theorem compareItems_of_equalItems (h : equalItems xs ys = true) :
    compareItems xs ys = some .eq := by
  induction xs generalizing ys with
  | nil =>
    cases ys with
    | nil => rfl
    | cons y ys => cases h
  | cons x xs ih =>
    cases ys with
    | nil => cases h
    | cons y ys =>
      rw [equalItems, Bool.and_eq_true] at h
      rw [compareItems, if_pos h.1, ih h.2]

/-- Lists with the order of equals are equal, if their items are. -/
theorem equalItems_of_compareItems
    (h : ∀ x ∈ xs, ∀ y ∈ ys, compare x y = some .eq → equal x y = true)
    (heq : compareItems xs ys = some .eq) : equalItems xs ys = true := by
  induction xs generalizing ys with
  | nil =>
    cases ys with
    | nil => rfl
    | cons y ys => cases heq
  | cons x xs ih =>
    cases ys with
    | nil => cases heq
    | cons y ys =>
      obtain ⟨hx, hxs⟩ := List.forall_mem_cons.1 h
      rw [compareItems] at heq
      rw [equalItems, Bool.and_eq_true]
      split at heq
      next hequal =>
        exact ⟨hequal, ih (fun x hx y hy => hxs x hx y (List.mem_cons_of_mem _ hy)) heq⟩
      next hne => exact absurd (hx y List.mem_cons_self heq) hne

/-- The order of lists cannot tell equal ones apart, if that of their items cannot. -/
theorem compareItems_congr
    (h : ∀ x ∈ xs, ∀ y ∈ ys, ∀ z ∈ zs, equal x y = true →
      equal x z = equal y z ∧ compare x z = compare y z)
    (heq : equalItems xs ys = true) : compareItems xs zs = compareItems ys zs := by
  induction xs generalizing ys zs with
  | nil =>
    cases ys with
    | nil => rfl
    | cons y ys => cases heq
  | cons x xs ih =>
    cases ys with
    | nil => cases heq
    | cons y ys =>
      rw [equalItems, Bool.and_eq_true] at heq
      cases zs with
      | nil => rfl
      | cons z zs =>
        obtain ⟨hx, hxs⟩ := List.forall_mem_cons.1 h
        obtain ⟨hequal, hcompare⟩ := hx y List.mem_cons_self z List.mem_cons_self heq.1
        have hrest := ih (fun x hx y hy z hz =>
          hxs x hx y (List.mem_cons_of_mem _ hy) z (List.mem_cons_of_mem _ hz)) heq.2
        rw [compareItems, compareItems, hequal, hcompare, hrest]

/-- One list comes before another one when it does so behind equal first items, or when its first
    item does. -/
theorem compareItems_cons_lt {x y : Value φ} :
    compareItems (x :: xs) (y :: ys) = some .lt ↔
      equal x y = true ∧ compareItems xs ys = some .lt ∨
        equal x y = false ∧ compare x y = some .lt := by
  rw [compareItems]
  split
  next h => simp [h]
  next h => simp [Bool.eq_false_iff.2 h]

/-! ## Values -/

namespace IsPlain

/-- Plain values are equal when they are the same but for functions of the same definition. -/
theorem equal_iff (hv : v.IsPlain) (hw : w.IsPlain) :
    equal v w = true ↔ v.map FunctionHandle.ident = w.map FunctionHandle.ident := by
  induction hv generalizing w with
  | list hitems ih =>
    cases hw with
    | list hitems' =>
      rw [equal, equalItems_iff fun x hx y hy => ih x hx (hitems' y hy)]
      simp
    | _ => simp [equal, toFloat?]
  | _ => cases hw <;> simp [equal, toFloat?]

theorem equal_self (hv : v.IsPlain) : equal v v = true := (hv.equal_iff hv).2 rfl

/-- Equality does not depend on which value comes first. -/
theorem equal_comm (hv : v.IsPlain) (hw : w.IsPlain) : equal v w = equal w v := by
  rw [Bool.eq_iff_iff, hv.equal_iff hw, hw.equal_iff hv]
  exact eq_comm

/-- Equality of plain values is transitive. -/
theorem equal_trans (hu : u.IsPlain) (hv : v.IsPlain) (hw : w.IsPlain) (huv : equal u v = true)
    (hvw : equal v w = true) : equal u w = true :=
  (hu.equal_iff hw).2 (((hu.equal_iff hv).1 huv).trans ((hv.equal_iff hw).1 hvw))

/-- Equal values are equal to the same ones. -/
theorem equal_congr (hu : u.IsPlain) (hv : v.IsPlain) (hw : w.IsPlain) (huv : equal u v = true) :
    equal u w = equal v w := by
  rw [Bool.eq_iff_iff, hu.equal_iff hw, hv.equal_iff hw, (hu.equal_iff hv).1 huv]

/-- The order of exchanged values is the reverse one. -/
theorem compare_swap (hv : v.IsPlain) (hw : w.IsPlain) :
    compare w v = (compare v w).map Ordering.swap := by
  induction hv generalizing w with
  | int m =>
    cases hw with
    | int n => exact congrArg some compareOfLessAndEq_swap
    | _ => rfl
  | str s =>
    cases hw with
    | str t => exact congrArg some compareOfLessAndEq_swap
    | _ => rfl
  | list hitems ih =>
    cases hw with
    | list hitems' =>
      exact compareItems_swap fun x hx y hy =>
        ⟨(hitems' y hy).equal_comm (hitems x hx), ih x hx (hitems' y hy)⟩
    | _ => rfl
  | _ => cases hw <;> rfl

/-- Plain values that neither precedes the other of are equal. -/
theorem equal_of_compare (hv : v.IsPlain) (hw : w.IsPlain) (h : compare v w = some .eq) :
    equal v w = true := by
  induction hv generalizing w with
  | int m =>
    cases hw with
    | int n => exact decide_eq_true (eq_of_compareOfLessAndEq (Option.some.inj h))
    | _ => cases h
  | str s =>
    cases hw with
    | str t => exact decide_eq_true (eq_of_compareOfLessAndEq (Option.some.inj h))
    | _ => cases h
  | list hitems ih =>
    cases hw with
    | list hitems' =>
      exact equalItems_of_compareItems (fun x hx y hy => ih x hx (hitems' y hy)) h
    | _ => cases h
  | _ => cases hw <;> cases h

/-- Of two plain values that are equal neither precedes the other, if they are ordered at all. -/
theorem eq_of_compare_of_equal {order : Ordering} (hv : v.IsPlain) (hw : w.IsPlain)
    (hequal : equal v w = true) (h : compare v w = some order) : order = .eq := by
  cases hv with
  | int m =>
    cases hw with
    | int n =>
      obtain rfl := of_decide_eq_true hequal
      exact Option.some.inj (h.symm.trans (congrArg some compareOfLessAndEq_self))
    | _ => cases h
  | str s =>
    cases hw with
    | str t =>
      obtain rfl := of_decide_eq_true hequal
      exact Option.some.inj (h.symm.trans (congrArg some compareOfLessAndEq_self))
    | _ => cases h
  | list hitems =>
    cases hw with
    | list hitems' => exact Option.some.inj (h.symm.trans (compareItems_of_equalItems hequal))
    | _ => cases h
  | _ => cases hw <;> cases h

/-- Equal values are ordered alike. -/
theorem compare_congr (hu : u.IsPlain) (hv : v.IsPlain) (hw : w.IsPlain)
    (huv : equal u v = true) : compare u w = compare v w := by
  induction hu generalizing v w with
  | int m =>
    cases hv with
    | int n => rw [of_decide_eq_true huv]
    | _ => cases huv
  | str s =>
    cases hv with
    | str t => rw [of_decide_eq_true huv]
    | _ => cases huv
  | list hitems ih =>
    cases hv with
    | list hitems' =>
      cases hw with
      | list hitems'' =>
        -- Lists are compared at their first difference, which equal lists have in the same place.
        exact compareItems_congr (fun x hx y hy z hz hxy =>
          ⟨(hitems x hx).equal_congr (hitems' y hy) (hitems'' z hz) hxy,
            ih x hx (hitems' y hy) (hitems'' z hz) hxy⟩) huv
      | _ => rfl
    | _ => cases huv
  | none =>
    cases hv with
    | none => rfl
    | _ => cases huv
  | function f =>
    cases hv with
    | function g => cases hw <;> rfl
    | _ => cases huv
  | builtin b =>
    cases hv with
    | builtin c => cases hw <;> rfl
    | _ => cases huv

/-- Equal values are ordered alike as right operands, too. -/
theorem compare_congr_right (hu : u.IsPlain) (hv : v.IsPlain) (hw : w.IsPlain)
    (huv : equal u v = true) : compare w u = compare w v := by
  rw [hu.compare_swap hw, hu.compare_congr hv hw huv, hv.compare_swap hw]

theorem equal_eq_false_of_compare (hv : v.IsPlain) (hw : w.IsPlain)
    (h : compare v w = some .lt) : equal v w = false := by
  rw [Bool.eq_false_iff]
  exact fun hequal => nomatch eq_of_compare_of_equal hv hw hequal h

/-- The order of plain lists is transitive when it is so from their first items on. -/
theorem compareItems_trans (hxs : ∀ x ∈ xs, x.IsPlain) (hys : ∀ y ∈ ys, y.IsPlain)
    (hzs : ∀ z ∈ zs, z.IsPlain)
    (h : ∀ x ∈ xs, ∀ {y z : Value φ}, y.IsPlain → z.IsPlain → compare x y = some .lt →
      compare y z = some .lt → compare x z = some .lt)
    (hxy : compareItems xs ys = some .lt) (hyz : compareItems ys zs = some .lt) :
    compareItems xs zs = some .lt := by
  induction xs generalizing ys zs with
  | nil =>
    cases zs with
    | nil => cases ys <;> cases hyz
    | cons z zs => rfl
  | cons x xs ih =>
    cases ys with
    | nil => cases hxy
    | cons y ys =>
      cases zs with
      | nil => cases hyz
      | cons z zs =>
        obtain ⟨hx, hxs⟩ := List.forall_mem_cons.1 hxs
        obtain ⟨hy, hys⟩ := List.forall_mem_cons.1 hys
        obtain ⟨hz, hzs⟩ := List.forall_mem_cons.1 hzs
        obtain ⟨hhead, htail⟩ := List.forall_mem_cons.1 h
        rw [compareItems_cons_lt] at hxy hyz ⊢
        -- The earlier one of the two places where a list goes ahead decides.
        rcases hxy with ⟨hexy, hxy⟩ | ⟨hnxy, hxy⟩
        · rw [hx.equal_congr hy hz hexy, hx.compare_congr hy hz hexy]
          exact hyz.imp_left fun ⟨heyz, hyz⟩ => ⟨heyz, ih hxs hys hzs htail hxy hyz⟩
        · rcases hyz with ⟨heyz, -⟩ | ⟨-, hyz⟩
          · have hxz : compare x z = some .lt := by
              rwa [← hy.compare_congr_right hz hx heyz]
            exact .inr ⟨hx.equal_eq_false_of_compare hz hxz, hxz⟩
          · have hxz := hhead hy hz hxy hyz
            exact .inr ⟨hx.equal_eq_false_of_compare hz hxz, hxz⟩

/-- The order is transitive. -/
theorem compare_trans (hu : u.IsPlain) (hv : v.IsPlain) (hw : w.IsPlain)
    (huv : compare u v = some .lt) (hvw : compare v w = some .lt) : compare u w = some .lt := by
  induction hu generalizing v w with
  | int m =>
    cases hv with
    | int n =>
      cases hw with
      | int k =>
        exact congrArg some
          (compareOfLessAndEq_trans (Option.some.inj huv) (Option.some.inj hvw))
      | _ => cases hvw
    | _ => cases huv
  | str s =>
    cases hv with
    | str t =>
      cases hw with
      | str r =>
        exact congrArg some
          (compareOfLessAndEq_trans (Option.some.inj huv) (Option.some.inj hvw))
      | _ => cases hvw
    | _ => cases huv
  | list hitems ih =>
    cases hv with
    | list hitems' =>
      cases hw with
      | list hitems'' =>
        exact compareItems_trans hitems hitems' hitems'' (fun x hx => ih x hx) huv hvw
      | _ => cases hvw
    | _ => cases huv
  | _ => cases hv <;> cases huv

end IsPlain

/-- Equality and order of plain values cohere. Equality is an equivalence relation. Values with the
    order of equals are equal, and equal ones have no other order. Exchanged values have the reverse
    order, or still none. The order is transitive, and does not change when an operand is replaced
    by an equal one. -/
theorem equal_compare_coherent :
    Equivalence (fun v w : { v : Value φ // v.IsPlain } => equal v.1 w.1 = true) ∧
    ∀ u v w : Value φ, u.IsPlain → v.IsPlain → w.IsPlain →
      (compare u v = some .eq → equal u v = true) ∧
      (∀ order, equal u v = true → compare u v = some order → order = .eq) ∧
      compare v u = (compare u v).map Ordering.swap ∧
      (compare u v = some .lt → compare v w = some .lt → compare u w = some .lt) ∧
      (equal u v = true → compare u w = compare v w ∧ compare w u = compare w v) := by
  refine ⟨⟨fun v => v.2.equal_self, ?_, ?_⟩, fun u v w hu hv hw => ⟨?_, ?_, ?_, ?_, ?_⟩⟩
  · exact fun {v w} hvw => (w.2.equal_comm v.2).trans hvw
  · exact fun {u v w} => u.2.equal_trans v.2 w.2
  · exact hu.equal_of_compare hv
  · exact fun order => hu.eq_of_compare_of_equal hv
  · exact hu.compare_swap hv
  · exact hu.compare_trans hv hw
  · exact fun huv => ⟨hu.compare_congr hv hw huv, hu.compare_congr_right hv hw huv⟩

/-- Three lists that begin with the same value, which has no order, are ordered by what follows. -/
theorem equal_compare_coherent_unordered : ∃ u v w : Value Code,
    compare (none : Value Code) none = Option.none ∧
      u = list [none, int 1] ∧ v = list [none, int 2] ∧ w = list [none, int 2, builtin .len] ∧
      compare u v = some .lt ∧ compare v w = some .lt ∧ compare u w = some .lt ∧
      compare w u = some .gt := by
  have hplain : ∀ items : List (Value Code), (∀ v ∈ items, v.IsPlain) → (list items).IsPlain :=
    fun _ => .list
  have hu := hplain [none, int 1] (by simp [IsPlain.none, IsPlain.int])
  have hv := hplain [none, int 2] (by simp [IsPlain.none, IsPlain.int])
  have hw := hplain [none, int 2, builtin .len]
    (by simp [IsPlain.none, IsPlain.int, IsPlain.builtin])
  obtain ⟨-, hcoherent⟩ := equal_compare_coherent (φ := Code)
  obtain ⟨-, -, -, htrans, -⟩ := hcoherent _ _ _ hu hv hw
  have huw := htrans rfl rfl
  obtain ⟨-, -, hswap, -, -⟩ := hcoherent _ _ _ hu hw hv
  rw [huw] at hswap
  exact ⟨_, _, _, rfl, rfl, rfl, rfl, rfl, rfl, huw, hswap⟩

end Linewise.Value
