import Linewise.Proofs.Bindings
import Linewise.Proofs.Machine.Step
import Linewise.Proofs.Value.Functions

/-!
# The codes in a machine

The functions that a machine may ever call are those that are in it already: in its codes, and in
the values that its frames and the global bindings hold. So when all functions in its values are
of a sort that its codes make functions of only (`Code.Makes`), those in its values after a step
are of this sort too (`Machine.Carries.step`).

In particular, all codes in the machine after a step are of a sort when those before it are, if
codes of the sort make functions of such codes only (`Machine.Within.step`).
-/

namespace Linewise

/-- All functions that a code makes are of the sort `Q`. -/
structure Code.Makes (Q : Code → Prop) (code : Code) : Prop where
  const : ∀ {v}, .const v ∈ code.instrs → v.Within Q
  makeFunction : ∀ {inner}, .makeFunction inner ∈ code.instrs → Q inner

/-- Codes of the sort `P` make functions of such codes only. -/
def Code.Closed (P : Code → Prop) : Prop := ∀ code, P code → code.Makes P

/-- All functions in the values of a frame are of the sort `Q`. -/
structure Frame.Carries (Q : Code → Prop) (frame : Frame) : Prop where
  stack : ∀ v ∈ frame.stack, v.Within Q
  locals : frame.locals.All (Value.Within Q)
  loops : ∀ loop ∈ frame.loops, ∀ v ∈ loop.rest, v.Within Q

/-- All functions in the values of a machine are of the sort `Q`. -/
structure Machine.Carries (Q : Code → Prop) (m : Machine) : Prop where
  frames : ∀ frame ∈ m.frames, frame.Carries Q
  globals : m.globals.All (Value.Within Q)

/-- The code of a frame and all functions in its values are of the sort `P`. -/
structure Frame.Within (P : Code → Prop) (frame : Frame) : Prop extends frame.Carries P where
  code : P frame.code

/-- All codes in a machine are of the sort `P`. -/
structure Machine.Within (P : Code → Prop) (m : Machine) : Prop where
  frames : ∀ frame ∈ m.frames, frame.Within P
  globals : m.globals.All (Value.Within P)

/-- The machine after a step. -/
def Machine.Progress.machine : Machine.Progress → Machine
  | next m | printed _ m | atLine _ m | finished m | faulted _ m => m

/-- All functions in the values of the machine after a step are of the sort `Q`. -/
def Machine.Progress.Carries (Q : Code → Prop) (progress : Machine.Progress) : Prop :=
  progress.machine.Carries Q

variable {P Q : Code → Prop}

namespace Frame

variable {frame : Frame}

theorem Carries.push (h : frame.Carries Q) {v : Value Code} (hv : v.Within Q) :
    (frame.push v).Carries Q :=
  ⟨List.forall_mem_cons.2 ⟨hv, h.stack⟩, h.locals, h.loops⟩

theorem Within.push (h : frame.Within P) {v : Value Code} (hv : v.Within P) :
    (frame.push v).Within P :=
  ⟨h.toCarries.push hv, h.code⟩

theorem carries_enter {code : Code} {locals : Bindings (Value Code)}
    (hlocals : locals.All (Value.Within Q)) : (Frame.enter code locals).Carries Q :=
  ⟨nofun, hlocals, nofun⟩

/-- A new frame is within what its code and its locals are in. -/
theorem within_enter {code : Code} {locals : Bindings (Value Code)} (hcode : P code)
    (hlocals : locals.All (Value.Within P)) : (Frame.enter code locals).Within P :=
  ⟨carries_enter hlocals, hcode⟩

end Frame

namespace Machine

variable {m : Machine} {frame : Frame} {callers : List Frame} {line : Line} {name : String}
  {stack : List (Value Code)} {v : Value Code}

theorem within_mk {globals : Bindings (Value Code)} {maxDepth : Nat} (hframe : frame.Within P)
    (hcallers : ∀ frame ∈ callers, frame.Within P) (hglobals : globals.All (Value.Within P)) :
    Machine.Within P ⟨frame :: callers, globals, maxDepth⟩ :=
  ⟨List.forall_mem_cons.2 ⟨hframe, hcallers⟩, hglobals⟩

theorem carries_mk {globals : Bindings (Value Code)} {maxDepth : Nat} (hframe : frame.Carries Q)
    (hcallers : ∀ frame ∈ callers, frame.Carries Q) (hglobals : globals.All (Value.Within Q)) :
    Machine.Carries Q ⟨frame :: callers, globals, maxDepth⟩ :=
  ⟨List.forall_mem_cons.2 ⟨hframe, hcallers⟩, hglobals⟩

theorem Within.carries (h : m.Within P) : m.Carries P :=
  ⟨fun frame hframe => (h.frames frame hframe).toCarries, h.globals⟩

/-- What a name is bound to is in the machine. -/
theorem within_of_resolve? {home : Home} (hglobals : m.globals.All (Value.Within Q))
    (hlocals : frame.locals.All (Value.Within Q))
    (h : m.resolve? frame name = some (home, v)) : v.Within Q := by
  rcases resolve?_cases h with ⟨-, hlocal⟩ | ⟨-, hglobal⟩ | ⟨-, b, rfl⟩
  · exact hlocals.find? hlocal
  · exact hglobals.find? hglobal
  · exact Value.within_builtin

/-- To bind a name makes no function. -/
theorem carries_bindAt {home : Home} (hframe : frame.Carries Q)
    (hcallers : ∀ frame ∈ callers, frame.Carries Q) (hglobals : m.globals.All (Value.Within Q))
    (hv : v.Within Q) : (m.bindAt frame callers home name v).Carries Q := by
  cases home with
  | «local» =>
    exact carries_mk ⟨hframe.stack, hframe.locals.insert hv, hframe.loops⟩ hcallers hglobals
  | global => exact carries_mk hframe hcallers (hglobals.insert hv)
  | builtin => exact carries_mk hframe hcallers hglobals

/-- To return a value makes no function. -/
theorem carries_leave (hcallers : ∀ frame ∈ callers, frame.Carries Q)
    (hglobals : m.globals.All (Value.Within Q)) (hv : v.Within Q) :
    (m.leave callers v).Carries Q := by
  unfold leave
  split
  · exact ⟨nofun, hglobals⟩
  · have hwithin := List.forall_mem_cons.1 hcallers
    exact carries_mk (hwithin.1.push hv) hwithin.2 hglobals

section Instructions

variable (hcode : frame.code.Makes Q) (hframe : frame.Carries Q)
  (hcallers : ∀ frame ∈ callers, frame.Carries Q) (hglobals : m.globals.All (Value.Within Q))

include hframe hcallers hglobals

theorem carries_withFrame {next : Nat} {loops : List OpenLoop} (hstack : ∀ v ∈ stack, v.Within Q)
    (hloops : ∀ loop ∈ loops, ∀ v ∈ loop.rest, v.Within Q) :
    (m.withFrame { frame with stack, next, loops, line } callers).Carries Q :=
  carries_mk ⟨hstack, hframe.locals, hloops⟩ hcallers hglobals

theorem carries_pushResult {result : Except Cause (Value Code)} (hstack : ∀ v ∈ stack, v.Within Q)
    (hresult : ∀ v, result = .ok v → v.Within Q) :
    (m.pushResult frame callers line stack result).Carries Q := by
  refine pushResult_cases
    (fun _ _ => carries_withFrame hframe hcallers hglobals hstack hframe.loops)
    fun v hv => carries_withFrame hframe hcallers hglobals ?_ hframe.loops
  exact List.forall_mem_cons.2 ⟨hresult v hv, hstack⟩

theorem carries_storeItem {index item : Value Code} (hstack : ∀ v ∈ stack, v.Within Q)
    (hindex : index.Within Q) (hitem : item.Within Q) :
    (m.storeItem frame callers line stack name index item).Carries Q := by
  refine storeItem_cases
    (fun _ _ => carries_withFrame hframe hcallers hglobals hstack hframe.loops)
    fun home container updated hresolve hupdated => ?_
  have hcontainer := within_of_resolve? hglobals hframe.locals hresolve
  exact carries_bindAt ⟨hstack, hframe.locals, hframe.loops⟩ hcallers hglobals
    (Value.within_replaceAt hcontainer hindex hitem hupdated)

/-- A call hands on functions, and makes none: those in the machine after it were among the callee,
    the arguments and what the machine held before. -/
theorem carries_call {callee : Value Code} {args : List (Value Code)}
    (hstack : ∀ v ∈ stack, v.Within Q) (hcallee : callee.Within Q)
    (hargs : ∀ v ∈ args, v.Within Q) :
    (m.call frame callers line stack callee args).Carries Q := by
  have hreturn : Frame.Carries Q { frame with stack } := ⟨hstack, hframe.locals, hframe.loops⟩
  refine call_cases (fun _ _ => carries_withFrame hframe hcallers hglobals hstack hframe.loops)
    ?_ ?_
  · intro builtin reply hreply
    have hwithin : (m.withFrame { frame with stack := reply.value :: stack } callers).Carries Q :=
      carries_withFrame hframe hcallers hglobals
        (List.forall_mem_cons.2 ⟨Value.within_call hargs hreply, hstack⟩) hframe.loops
    exact ⟨hwithin, fun _ => hwithin⟩
  · -- The new frame has the arguments for bindings.
    rintro code rfl -
    refine carries_mk (Frame.carries_enter ?_) (List.forall_mem_cons.2 ⟨hreturn, hcallers⟩) hglobals
    exact Bindings.all_ofList fun pair hpair => hargs pair.2 (List.of_mem_zip hpair).2

/-- The next item of a loop is handed on, and no function is made. -/
theorem carries_nextItem {exit : Nat} : (m.nextItem frame callers line exit).Carries Q := by
  refine nextItem_cases
    (fun _ _ hsub _ => carries_withFrame hframe hcallers hglobals
      (fun v hv => hframe.stack v (hsub hv)) hframe.loops) ?_ ?_
  · intro taken outer hloops
    have hwithin := List.forall_mem_cons.1 (hloops ▸ hframe.loops)
    exact carries_withFrame hframe hcallers hglobals hframe.stack hwithin.2
  · intro taken item rest outer hloops
    have hwithin := List.forall_mem_cons.1 (hloops ▸ hframe.loops)
    have hitems := List.forall_mem_cons.1 hwithin.1
    exact carries_withFrame hframe hcallers hglobals
      (List.forall_mem_cons.2 ⟨hitems.1, hframe.stack⟩)
      (List.forall_mem_cons.2 ⟨hitems.2, hwithin.2⟩)

include hcode

/-- The functions in a machine after an instruction are of the sort that they were of before it. -/
theorem carries_execute {instr : Instr} (hinstr : instr ∈ frame.code.instrs) :
    (m.execute frame callers line instr).Carries Q := by
  -- Operands are taken from the stack, results are put onto what is left of it, and a fault drops
  -- operands at most. Only constants and new functions come from the code.
  have hstay : ∀ {stack next}, (∀ v ∈ stack, v.Within Q) →
      (m.withFrame { frame with stack, next } callers).Carries Q :=
    fun hstack => carries_withFrame hframe hcallers hglobals hstack hframe.loops
  have hpush : ∀ {v : Value Code} {stack}, v.Within Q → (∀ v ∈ stack, v.Within Q) →
      ∀ u ∈ v :: stack, u.Within Q := fun hv hstack => List.forall_mem_cons.2 ⟨hv, hstack⟩
  have hfail : ∀ stack cause, stack ⊆ frame.stack →
      (m.failWith frame callers line stack cause).Carries Q :=
    fun _ _ hsub => hstay fun v hv => hframe.stack v (hsub hv)
  have hunfed : ∀ {count : Nat} stack cause, stack ⊆ frame.stack → frame.stack.length < count →
      (m.failWith frame callers line stack cause).Carries Q :=
    fun stack cause hsub _ => hfail stack cause hsub
  have hpop : ∀ {v stack}, frame.stack = v :: stack → v.Within Q ∧ ∀ v ∈ stack, v.Within Q :=
    fun hstack => List.forall_mem_cons.1 (hstack ▸ hframe.stack)
  have hpopTwo : ∀ {v w stack}, frame.stack = w :: v :: stack →
      v.Within Q ∧ w.Within Q ∧ ∀ v ∈ stack, v.Within Q := fun hstack =>
    have hw := List.forall_mem_cons.1 (hstack ▸ hframe.stack)
    have hv := List.forall_mem_cons.1 hw.2
    ⟨hv.1, hw.1, hv.2⟩
  have hpopMany : ∀ {args stack : List (Value Code)}, frame.stack = args.reverse ++ stack →
      (∀ v ∈ args, v.Within Q) ∧ ∀ v ∈ stack, v.Within Q := fun hstack =>
    have h := List.forall_mem_append.1 (hstack ▸ hframe.stack)
    ⟨fun v hv => h.1 v (List.mem_reverse.2 hv), h.2⟩
  cases instr with
  | line reached => exact carries_withFrame hframe hcallers hglobals hframe.stack hframe.loops
  | const v => exact hstay (hpush (hcode.const hinstr) hframe.stack)
  | load name =>
    rw [execute]
    dsimp only
    split
    next hresolve =>
      exact hstay (hpush (within_of_resolve? hglobals hframe.locals hresolve) hframe.stack)
    · exact hfail _ _ (List.Subset.refl _)
  | store name =>
    refine pop_cases hunfed fun v stack hv => ?_
    exact carries_bindAt ⟨(hpop hv).2, hframe.locals, hframe.loops⟩ hcallers hglobals (hpop hv).1
  | storeIndex name =>
    refine popTwo_cases hunfed fun index item stack h => ?_
    obtain ⟨hindex, hitem, hstack⟩ := hpopTwo h
    exact carries_storeItem hframe hcallers hglobals hstack hindex hitem
  | buildList count =>
    rw [execute]
    refine popMany_cases hunfed fun items stack h _ => hstay (hpush ?_ (hpopMany h).2)
    exact Value.within_list.2 (hpopMany h).1
  | index =>
    refine popTwo_cases hunfed fun object index stack h => ?_
    obtain ⟨hobject, hindex, hstack⟩ := hpopTwo h
    exact carries_pushResult hframe hcallers hglobals hstack fun _ =>
      Value.within_subscript hobject hindex
  | unary op =>
    refine pop_cases hunfed fun v stack h => ?_
    exact carries_pushResult hframe hcallers hglobals (hpop h).2 fun _ =>
      Value.within_applyUnary (hpop h).1
  | binary op =>
    refine popTwo_cases hunfed fun left right stack h => ?_
    obtain ⟨hleft, hright, hstack⟩ := hpopTwo h
    exact carries_pushResult hframe hcallers hglobals hstack fun _ =>
      Value.within_applyBinary hleft hright
  | jump target => exact hstay hframe.stack
  | jumpIfFalse target => exact pop_cases hunfed fun v stack h => hstay (hpop h).2
  | jumpIfFalseOrPop target =>
    refine pop_cases hunfed fun v stack h => ?_
    cases v.isTruthy
    · exact hstay hframe.stack
    · exact hstay (hpop h).2
  | jumpIfTrueOrPop target =>
    refine pop_cases hunfed fun v stack h => ?_
    cases v.isTruthy
    · exact hstay (hpop h).2
    · exact hstay hframe.stack
  | call argc =>
    rw [execute]
    refine popMany_cases hunfed fun args stack h _ => ?_
    obtain ⟨hargs, hrest⟩ := hpopMany h
    split
    · obtain ⟨hcallee, hstack⟩ := List.forall_mem_cons.1 hrest
      exact carries_call hframe hcallers hglobals hstack hcallee hargs
    · exact hfail _ _ (List.nil_subset _)
  | leave =>
    exact pop_cases hunfed fun v stack h => carries_leave hcallers hglobals (hpop h).1
  | pop => exact pop_cases hunfed fun v stack h => hstay (hpop h).2
  | makeFunction code =>
    exact hstay (hpush (Value.within_function.2 (hcode.makeFunction hinstr)) hframe.stack)
  | iterStart =>
    refine pop_cases hunfed fun v stack h => ?_
    dsimp only
    split
    next items hitems =>
      refine carries_withFrame hframe hcallers hglobals (hpop h).2
        (List.forall_mem_cons.2 ⟨?_, hframe.loops⟩)
      exact Value.within_iterate (hpop h).1 hitems
    · exact hstay (hpop h).2
  | iterNext exit => exact carries_nextItem hframe hcallers hglobals
  | iterDrop =>
    exact carries_withFrame hframe hcallers hglobals hframe.stack fun loop hloop =>
      hframe.loops loop (List.mem_of_mem_tail hloop)

end Instructions

/-- The functions in a machine after a step are of the sort that they were of before it. -/
theorem Carries.step (h : m.Carries Q) (hcodes : ∀ frame ∈ m.frames, frame.code.Makes Q) :
    m.step.machine.Carries Q := by
  obtain ⟨frames, globals, maxDepth⟩ := m
  cases frames with
  | nil => exact h
  | cons frame callers =>
    obtain ⟨hframe, hcallers⟩ := List.forall_mem_cons.1 h.frames
    have hcode := hcodes frame List.mem_cons_self
    cases hinstr : frame.code.instrs[frame.next]? with
    | some instr =>
      rw [step_eq_execute rfl hinstr]
      have hnext : Frame.Carries Q { frame with next := frame.next + 1 } :=
        ⟨hframe.stack, hframe.locals, hframe.loops⟩
      refine carries_execute ?_ hnext hcallers h.globals (List.mem_of_getElem? hinstr)
      exact hcode
    | none =>
      simp only [step, hinstr]
      split <;> exact h

/-- The codes of the frames after a step are those before it, or that of a function that a value
    holds. -/
theorem code_of_step (h : ∀ frame ∈ m.frames, P frame.code) (hm : m.Carries P) :
    ∀ frame ∈ m.step.machine.frames, P frame.code := by
  have hsteps := step_steps m
  generalize m.step = progress at hsteps
  cases hsteps with
  | empty | ends | falls => exact h
  | @executes frame callers instr _ hframes _ hexec =>
    rw [hframes] at h
    obtain ⟨hcode, hcallers⟩ := List.forall_mem_cons.1 h
    cases hexec with
    | stays hsame => exact List.forall_mem_cons.2 ⟨hsame ▸ hcode, hcallers⟩
    | prints | reaches | fails => exact List.forall_mem_cons.2 ⟨hcode, hcallers⟩
    | enters hcallee =>
      have hframe := hm.frames frame (hframes ▸ List.mem_cons_self)
      exact List.forall_mem_cons.2
        ⟨Value.within_function.1 (hframe.stack _ hcallee), List.forall_mem_cons.2 ⟨hcode, hcallers⟩⟩
    | leaves hcallers' =>
      subst hcallers'
      exact List.forall_mem_cons.2 (List.forall_mem_cons.1 hcallers)
    | finishes => exact nofun

/-- The codes in a machine after a step are of the sort that they were of before it. -/
theorem Within.step (hP : Code.Closed P) (h : m.Within P) : m.step.machine.Within P := by
  have hcodes : ∀ frame ∈ m.frames, P frame.code := fun frame hframe => (h.frames frame hframe).code
  have hcarries := h.carries.step fun frame hframe => hP _ (hcodes frame hframe)
  refine ⟨fun frame hframe => ⟨hcarries.frames frame hframe, ?_⟩, hcarries.globals⟩
  exact code_of_step hcodes h.carries frame hframe

end Machine

end Linewise
