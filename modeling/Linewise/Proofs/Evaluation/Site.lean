import Linewise.Proofs.Code.Layout
import Linewise.Proofs.Evaluation.Realization

/-!
# Sites

A *site* is a place in the run of a code, with the scope of the evaluation there (`Site`). It
makes a stage of a run out of a world (`Site.stage`). The instruction at a site leads to other
sites, as is told here for each of them, or it faults.
-/

namespace Linewise

/-- A place in the run of a code: the innermost frame, with the scope of the evaluation for its
    bindings, and the frames of its callers. -/
structure Site where
  code : Code
  callers : List Frame
  maxDepth : Nat
  scope : Scope
  line : Line
  loops : List OpenLoop
  next : Nat
  stack : List (Value Code)

namespace Site

/-- The site with its next instruction and its operand stack replaced. -/
def goTo (p : Site) (next : Nat) (stack : List (Value Code)) : Site := { p with next, stack }

/-- The innermost frame. -/
def frame (p : Site) : Frame :=
  ⟨p.code, p.next, p.stack, (p.scope.getD .empty).map Value.code, p.loops, p.line⟩

/-- The machine whose innermost frame is at the site, in a world. -/
def machine (p : Site) (w : World) : Machine :=
  ⟨p.frame :: p.callers, w.globals.map Value.code, p.maxDepth⟩

/-- The stage of a run at a site. -/
def stage (p : Site) (w : World) : Stage := ⟨p.machine w, w.printed⟩

/-- The number of frames that there is room for. -/
def room (p : Site) : Nat := p.maxDepth - (p.callers.length + 1)

/-- The scope is one of the code, and all definitions in it are legal. -/
structure IsLegal (tracked : Prop) (p : Site) : Prop where
  isModule : p.code.isModule = p.scope.isNone
  scope : p.scope.IsLegal tracked

/-- The frame is on a line, as far as lines are tracked. -/
abbrev IsOn (tracked : Prop) (p : Site) (line : Line) : Prop := tracked → p.line = line

variable {tracked : Prop} {p q : Site} {w w' : World} {instr : Instr} {cause : Cause} {line : Line}
  {v v' : Value Definition} {stack : List (Value Code)} {name : String}

theorem IsLegal.goTo (h : p.IsLegal tracked) (next : Nat) (stack : List (Value Code)) :
    (p.goTo next stack).IsLegal tracked := ⟨h.isModule, h.scope⟩

/-- Another scope is one of the code too when it is one of the same kind. -/
theorem IsLegal.isModule_eq {scope : Scope} (h : p.IsLegal tracked)
    (hisSome : scope.isSome = p.scope.isSome) : p.code.isModule = scope.isNone := by
  rw [h.isModule, ← Option.not_isSome, ← Option.not_isSome, hisSome]

/-! ## One instruction -/

/-- The step at a site runs the instruction there. -/
theorem step_eq (hinstr : p.code.instrs[p.next]? = some instr) :
    (p.machine w).step =
      (p.machine w).execute { p.frame with next := p.next + 1 } p.callers p.line instr := by
  simp only [Machine.step, machine, frame, hinstr]

/-- A step of a site leads to another one if its instruction does. -/
theorem next?_eq (hinstr : p.code.instrs[p.next]? = some instr)
    (h : (p.machine w).execute { p.frame with next := p.next + 1 } p.callers p.line instr =
      .next (q.machine w'))
    (hprinted : w'.printed = w.printed) : (p.stage w).next? = some (q.stage w') := by
  unfold Stage.next? stage
  rw [step_eq hinstr, h, hprinted]

/-- An instruction that fails does so on the line that the frame is on. -/
theorem faultsWith (stack : List (Value Code)) (hline : p.IsOn tracked line)
    (hinstr : p.code.instrs[p.next]? = some instr)
    (h : (p.machine w).execute { p.frame with next := p.next + 1 } p.callers p.line instr =
      (p.machine w).failWith { p.frame with next := p.next + 1 } p.callers p.line stack cause) :
    (p.stage w).FaultsWith tracked (.onLine cause line) w :=
  ⟨_, _, (step_eq hinstr).trans h, Fault.agrees_onLine hline, rfl, rfl⟩

theorem next?_const {v : Value Code} (hinstr : p.code.instrs[p.next]? = some (.const v)) :
    (p.stage w).next? = some ((p.goTo (p.next + 1) (v :: p.stack)).stage w) :=
  next?_eq hinstr rfl rfl

theorem next?_line (hinstr : p.code.instrs[p.next]? = some (.line line)) :
    (p.stage w).next? = some (({ p with line, next := p.next + 1 } : Site).stage w) := by
  rw [Stage.next?, stage, step_eq hinstr]
  rfl

theorem next?_jump {target : Nat} (hinstr : p.code.instrs[p.next]? = some (.jump target)) :
    (p.stage w).next? = some ((p.goTo target p.stack).stage w) :=
  next?_eq hinstr rfl rfl

theorem next?_pop {v : Value Code} (hinstr : p.code.instrs[p.next]? = some .pop)
    (hstack : p.stack = v :: stack) :
    (p.stage w).next? = some ((p.goTo (p.next + 1) stack).stage w) := by
  refine next?_eq hinstr ?_ rfl
  simp only [Machine.execute, Machine.pop, frame, hstack]
  rfl

theorem next?_iterDrop (hinstr : p.code.instrs[p.next]? = some .iterDrop) :
    (p.stage w).next? =
      some (({ p with loops := p.loops.tail, next := p.next + 1 } : Site).stage w) :=
  next?_eq hinstr rfl rfl

/-- A conditional jump goes where the condition in the evaluation says. -/
theorem next?_jumpIfFalse {target : Nat}
    (hinstr : p.code.instrs[p.next]? = some (.jumpIfFalse target))
    (hstack : p.stack = v.code :: stack) :
    (p.stage w).next? =
      some ((p.goTo (if v.isTruthy then p.next + 1 else target) stack).stage w) := by
  refine next?_eq hinstr ?_ rfl
  simp only [Machine.execute, Machine.pop, frame, hstack, Value.isTruthy_map]
  rfl

/-- The jump of a logical operator keeps the left operand exactly when it decides. -/
theorem next?_logicJump {op : LogicOp} {target : Nat}
    (hinstr : p.code.instrs[p.next]? = some (op.jump target))
    (hstack : p.stack = v.code :: stack) :
    (p.stage w).next? =
      some ((if op.decidedBy v then p.goTo target p.stack
        else p.goTo (p.next + 1) stack).stage w) := by
  refine next?_eq hinstr ?_ rfl
  -- `and` jumps on a falsy operand and `or` on a truthy one.
  cases op <;> cases htruthy : v.isTruthy <;>
    simp [LogicOp.jump, LogicOp.decidedBy, Machine.execute, Machine.pop, frame, hstack, htruthy,
      Value.isTruthy_map] <;> rfl

/-- A loop over items is opened over those of the evaluation. -/
theorem execute_iterStart (hstack : p.stack = v.code :: stack) :
    (p.machine w).execute { p.frame with next := p.next + 1 } p.callers p.line .iterStart =
      match v.iterate with
      | .ok items => .next (({ p with
        next := p.next + 1, stack, loops := ⟨0, items.map Value.code⟩ :: p.loops } : Site).machine
          w)
      | .error cause => (p.machine w).failWith { p.frame with next := p.next + 1 } p.callers
        p.line stack cause := by
  simp only [Machine.execute, Machine.pop, frame, hstack, Value.iterate_map]
  cases v.iterate <;> rfl

/-! ## Names -/

/-- A name is bound in a frame at a site as it is in the evaluation there. -/
theorem resolve?_eq (hp : p.IsLegal tracked) (next : Nat) (name : String) (w : World) :
    (p.machine w).resolve? { p.frame with next } name =
      match p.scope.bind (·.find? name) with
      | some v => some (.local, v.code)
      | none =>
        match w.globals.find? name with
        | some v => some (.global, v.code)
        | none => (Builtin.ofName? name).map fun b => (.builtin, .builtin b) := by
  have hmodule := hp.isModule
  rw [Machine.resolve?, machine, frame]
  -- A frame looks among its own bindings only if its code is that of a function, which is when
  -- the scope has some.
  cases hscope : p.scope with
  | none =>
    rw [hscope] at hmodule
    simp only [hmodule, Option.isNone_none, if_true, Option.bind_none, Bindings.find?_map]
    cases w.globals.find? name <;> rfl
  | some locals =>
    rw [hscope] at hmodule
    simp only [hmodule, Option.isNone_some, Bool.false_eq_true, if_false, Option.bind_some,
      Option.getD_some, Bindings.find?_map]
    cases locals.find? name with
    | some v => rfl
    | none => cases w.globals.find? name <;> rfl

/-- What a name is bound to in a frame at a site is the code of what it means. -/
theorem resolve?_map_snd (hp : p.IsLegal tracked) (next : Nat) (name : String) (w : World) :
    ((p.machine w).resolve? { p.frame with next } name).map Prod.snd =
      (p.scope.lookup name w).map Value.code := by
  rw [resolve?_eq hp, Scope.lookup]
  cases p.scope.bind (·.find? name) with
  | some v => rfl
  | none =>
    cases w.globals.find? name with
    | some v => rfl
    | none => cases Builtin.ofName? name <;> rfl

/-- All definitions in what a name means are legal. -/
theorem lookup_isLegal (hp : p.IsLegal tracked) (hw : w.IsLegal tracked)
    (h : p.scope.lookup name w = some v) : v.IsLegal tracked := by
  rw [Scope.lookup] at h
  rcases Option.or_eq_some_iff.1 h with h | ⟨-, h⟩
  · obtain ⟨locals, hlocals, hv⟩ := Option.bind_eq_some_iff.1 h
    exact (hp.scope locals hlocals).find? hv
  · rcases Option.or_eq_some_iff.1 h with h | ⟨-, h⟩
    · exact hw.find? h
    · obtain ⟨b, -, rfl⟩ := Option.map_eq_some_iff.1 h
      exact Value.within_builtin

/-- A name that means something is loaded with its value. -/
theorem next?_load (hp : p.IsLegal tracked) (hinstr : p.code.instrs[p.next]? = some (.load name))
    (h : p.scope.lookup name w = some v) :
    (p.stage w).next? = some ((p.goTo (p.next + 1) (v.code :: p.stack)).stage w) := by
  have hsnd := resolve?_map_snd hp (p.next + 1) name w
  rw [h, Option.map_some, Option.map_eq_some_iff] at hsnd
  obtain ⟨⟨home, v'⟩, hresolve, rfl⟩ := hsnd
  refine next?_eq hinstr ?_ rfl
  simp only [Machine.execute, hresolve]
  rfl

/-- A name that means nothing is a fault on the line of the frame. -/
theorem faultsWith_load (hp : p.IsLegal tracked) (hline : p.IsOn tracked line)
    (hinstr : p.code.instrs[p.next]? = some (.load name)) (h : p.scope.lookup name w = none) :
    (p.stage w).FaultsWith tracked (.onLine (.unbound name) line) w := by
  have hsnd := resolve?_map_snd hp (p.next + 1) name w
  rw [h, Option.map_none, Option.map_eq_none_iff] at hsnd
  refine faultsWith p.stack hline hinstr ?_
  simp only [Machine.execute, hsnd]
  rfl

end Site

end Linewise
