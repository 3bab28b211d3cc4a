import Linewise.Proofs.Value.Map

/-!
# Functions in values

The functions that a value holds, at any depth of its lists. Computing with values makes no
functions: when all functions in the operands are of a certain sort (`Value.Within`), then so are
those in the result.

This follows from what values with other functions have in common (`Value.applyBinary_map` and
the like): such operands are those over the functions of that sort alone, with the proofs
forgotten (`Value.Within.exists_map`), and hence so is the result.
-/

namespace Linewise

variable {φ ψ : Type}

namespace Value

mutual

/-- The functions in a value. -/
@[simp]
def functions : Value φ → List φ
  | none | bool _ | int _ | float _ | str _ | builtin _ => []
  | list items => functionsOf items
  | function g => [g]

/-- The functions in some values. -/
@[simp]
def functionsOf : List (Value φ) → List φ
  | [] => []
  | item :: rest => item.functions ++ functionsOf rest

end

/-- All functions in a value are of the sort `P`. -/
def Within (P : φ → Prop) (v : Value φ) : Prop := ∀ g ∈ v.functions, P g

variable {P : φ → Prop}

theorem mem_functionsOf {g : φ} {items : List (Value φ)} :
    g ∈ functionsOf items ↔ ∃ v ∈ items, g ∈ v.functions := by
  induction items with
  | nil => simp
  | cons item rest ih => simp [ih]

@[simp]
theorem within_list {items : List (Value φ)} :
    (list items).Within P ↔ ∀ v ∈ items, v.Within P := by
  simp only [Within, functions, mem_functionsOf]
  exact ⟨fun h v hv g hg => h g ⟨v, hv, hg⟩, fun h g ⟨v, hv, hg⟩ => h v hv g hg⟩

@[simp]
theorem within_function {g : φ} : (function g).Within P ↔ P g := by
  simp [Within]

@[simp] theorem within_none : (none : Value φ).Within P := by simp [Within]
@[simp] theorem within_bool {b : Bool} : (bool b : Value φ).Within P := by simp [Within]
@[simp] theorem within_int {n : Int64} : (int n : Value φ).Within P := by simp [Within]
@[simp] theorem within_float {x : Float} : (float x : Value φ).Within P := by simp [Within]
@[simp] theorem within_str {s : String} : (str s : Value φ).Within P := by simp [Within]
@[simp] theorem within_builtin {b : Builtin} : (builtin b : Value φ).Within P := by simp [Within]

/-! ## Forgetting the sort -/

mutual

theorem functions_map (f : φ → ψ) : ∀ v : Value φ, (v.map f).functions = v.functions.map f
  | none | bool _ | int _ | float _ | str _ | builtin _ | function _ => rfl
  | list items => functionsOf_map f items

theorem functionsOf_map (f : φ → ψ) :
    ∀ items : List (Value φ), functionsOf (mapItems f items) = (functionsOf items).map f
  | [] => rfl
  | item :: rest => by
    rw [mapItems, functionsOf, functionsOf, functions_map, functionsOf_map, List.map_append]

end

theorem within_map_val (u : Value (Subtype P)) : (u.map Subtype.val).Within P := by
  intro g hg
  rw [functions_map, List.mem_map] at hg
  obtain ⟨g, -, rfl⟩ := hg
  exact g.2

mutual

/-- A value all of whose functions are of a sort is one over that sort alone. -/
theorem Within.exists_map :
    ∀ {v : Value φ}, v.Within P → ∃ u : Value (Subtype P), u.map Subtype.val = v
  | none, _ => ⟨none, rfl⟩
  | bool b, _ => ⟨bool b, rfl⟩
  | int n, _ => ⟨int n, rfl⟩
  | float x, _ => ⟨float x, rfl⟩
  | str s, _ => ⟨str s, rfl⟩
  | builtin b, _ => ⟨builtin b, rfl⟩
  | function g, h => ⟨function ⟨g, within_function.1 h⟩, rfl⟩
  | list items, h =>
    let ⟨us, hus⟩ := exists_mapItems items (within_list.1 h)
    ⟨list us, congrArg list hus⟩

/-- Values whose functions are all of one sort can be taken for values with functions of that sort
    only. -/
theorem exists_mapItems : ∀ items : List (Value φ), (∀ v ∈ items, v.Within P) →
    ∃ us : List (Value (Subtype P)), mapItems Subtype.val us = items
  | [], _ => ⟨[], rfl⟩
  | item :: rest, h =>
    let ⟨u, hu⟩ := Within.exists_map (h item List.mem_cons_self)
    let ⟨us, hus⟩ := exists_mapItems rest fun v hv => h v (List.mem_cons_of_mem _ hv)
    ⟨u :: us, by rw [mapItems, hu, hus]⟩

end

theorem exists_map_items {items : List (Value φ)} (h : ∀ v ∈ items, v.Within P) :
    ∃ us : List (Value (Subtype P)), us.map (map Subtype.val) = items := by
  obtain ⟨us, hus⟩ := exists_mapItems items h
  exact ⟨us, by rw [← mapItems_eq_map, hus]⟩

/-- A result that comes from one over the functions of a sort has functions of that sort only. -/
theorem within_of_map_eq {e : Except Cause (Value (Subtype P))} {r : Value φ}
    (h : e.map (map Subtype.val) = .ok r) : r.Within P := by
  cases e with
  | error cause => cases h
  | ok u => cases h; exact within_map_val u

/-! ## Operations make no functions -/

section Operations

instance [FunctionHandle φ] : FunctionHandle (Subtype P) where
  name g := FunctionHandle.name g.1
  ident g := FunctionHandle.ident g.1

theorem keepsHandles_val [FunctionHandle φ] : KeepsHandles (Subtype.val : Subtype P → φ) :=
  ⟨fun _ => rfl, fun _ => rfl⟩

variable {v w r : Value φ} {args : List (Value φ)}

theorem within_applyUnary {op : UnaryOp} (hv : v.Within P) (h : applyUnary op v = .ok r) :
    r.Within P := by
  obtain ⟨v, rfl⟩ := hv.exists_map
  rw [applyUnary_map] at h
  exact within_of_map_eq h

theorem within_applyBinary [FunctionHandle φ] {op : BinaryOp} (hv : v.Within P) (hw : w.Within P)
    (h : applyBinary op v w = .ok r) : r.Within P := by
  obtain ⟨v, rfl⟩ := hv.exists_map
  obtain ⟨w, rfl⟩ := hw.exists_map
  rw [applyBinary_map keepsHandles_val] at h
  exact within_of_map_eq h

theorem within_subscript (hv : v.Within P) (hw : w.Within P) (h : v.subscript w = .ok r) :
    r.Within P := by
  obtain ⟨v, rfl⟩ := hv.exists_map
  obtain ⟨w, rfl⟩ := hw.exists_map
  rw [subscript_map] at h
  exact within_of_map_eq h

theorem within_replaceAt {item : Value φ} (hv : v.Within P) (hw : w.Within P)
    (hi : item.Within P) (h : v.replaceAt w item = .ok r) : r.Within P := by
  obtain ⟨v, rfl⟩ := hv.exists_map
  obtain ⟨w, rfl⟩ := hw.exists_map
  obtain ⟨item, rfl⟩ := hi.exists_map
  rw [replaceAt_map] at h
  exact within_of_map_eq h

/-- What a loop goes over holds only functions that the list holds. -/
theorem within_iterate {items : List (Value φ)} (hv : v.Within P) (h : v.iterate = .ok items) :
    ∀ item ∈ items, item.Within P := by
  obtain ⟨v, rfl⟩ := hv.exists_map
  rw [iterate_map] at h
  cases he : v.iterate with
  | error cause => rw [he] at h; cases h
  | ok us =>
    rw [he] at h
    cases h
    intro item hitem
    obtain ⟨u, -, rfl⟩ := List.mem_map.1 hitem
    exact within_map_val u

/-- A built-in function returns no function that was not among its arguments. -/
theorem within_call [FunctionHandle φ] {callee : Builtin} {reply : Builtin.Reply φ}
    (hargs : ∀ v ∈ args, v.Within P) (h : callee.call args = .ok reply) :
    reply.value.Within P := by
  obtain ⟨us, rfl⟩ := exists_map_items hargs
  rw [Builtin.call_map keepsHandles_val] at h
  cases he : callee.call us with
  | error cause => rw [he] at h; cases h
  | ok reply => rw [he] at h; cases h; exact within_map_val _

end Operations

end Value

end Linewise
