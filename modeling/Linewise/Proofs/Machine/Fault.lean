import Linewise.Proofs.Machine.Lines

/-!
# Faulting steps

A step that faults has moved on and taken operands from the stack, and has changed nothing else.
All bindings and open loops are as they were, and so is every frame that waits for a call to
return. The watcher has been told nothing (`Execution.kept_of_faulted`).

Of all instructions, the assignment to an item could most easily lose a binding: it takes the list
out of its scope, tries to replace the item, and binds what comes of it. Nothing is lost as the list
is put back when the item cannot be replaced (`Machine.storeItem_eq`).
-/

namespace Linewise

namespace Machine

variable {m m' : Machine} {fault : Fault}

/-- A machine whose step faults has a frame, which has moved on and given operands away, and the
    fault is on the line that the frame is on. -/
theorem eq_of_step_faulted (h : m.step = .faulted fault m') :
    ∃ frame callers stack next cause, m.frames = frame :: callers ∧
      fault = .onLine cause frame.line ∧
      m' = { m with frames := { frame with stack, next } :: callers } := by
  have hsteps := step_steps m
  rw [h] at hsteps
  cases hsteps with
  | @falls frame callers hframes hinstr hmodule =>
    refine ⟨frame, callers, frame.stack, frame.next, _, hframes, rfl, ?_⟩
    rw [← hframes]
  | @executes frame callers instr _ hframes hinstr hexec =>
    cases hexec with
    | @fails stack cause => exact ⟨frame, callers, stack, _, cause, hframes, rfl, rfl⟩

end Machine

namespace Execution

variable {σ : Type} {w : Watcher σ} {e e' : Execution} {s s' : σ} {fault : Fault}

/-- A faulting step changes no binding. Whatever state an execution is in and whoever watches it,
    a step that faults leaves the bindings of the script and the frames that wait for a call to
    return as they are, and of the innermost frame all but its operands and its next instruction:
    its code, its bindings, its open loops and its line. The watcher is told nothing, so nothing
    is printed. The execution is over, with that fault, and is not traced any more. -/
theorem kept_of_faulted (h : e.step w s = (some (.faulted fault), e', s')) :
    s' = s ∧ e'.control = .faulted fault ∧ e'.traced = false ∧
      ∃ frame callers stack next, e.machine.frames = frame :: callers ∧
        e'.machine = { e.machine with frames := { frame with stack, next } :: callers } := by
  have hmachine := machine_step_of_faulted h
  obtain ⟨m', control, traced⟩ := e'
  obtain ⟨frame, callers, stack, next, -, hframes, -, hkept⟩ :=
    Machine.eq_of_step_faulted hmachine
  rw [step, hmachine] at h
  cases h
  exact ⟨rfl, rfl, rfl, frame, callers, stack, next, hframes, hkept⟩

/-- A function that assigns to an item of its argument. -/
def assigner : Code := ⟨"f", ["xs"], [.storeIndex "xs"], 1, 1⟩

/-- The function with the list `[True]` as its argument, where the item after the only one is
    about to be assigned. The script has bound the same name to something else. -/
def overreach : Execution where
  machine :=
    { frames := [{ Frame.enter assigner (Bindings.empty.insert "xs" (.list [.bool true])) with
          stack := [.none, .int 1, .str "under"] },
        .enter ⟨Code.moduleName, [], [], 0, 0⟩ .empty]
      globals := Bindings.empty.insert "xs" .none
      maxDepth := 2 }
  control := .running
  traced := true

/-- The overreaching assignment faults and leaves the list as it was. -/
theorem kept_of_faulted_overreach : ∃ (w : Watcher Nat) (fault : Fault) (e' : Execution),
    overreach.step w 7 = (some (.faulted fault), e', 7) ∧
      ∃ frame callers stack next, overreach.machine.frames = frame :: callers ∧
        e'.machine =
          { overreach.machine with frames := { frame with stack, next } :: callers } := by
  obtain ⟨fault, e', hstep⟩ : ∃ fault e',
      overreach.step ⟨fun _ n => .ok n, fun _ n => n⟩ 7 = (some (.faulted fault), e', 7) :=
    ⟨_, _, rfl⟩
  obtain ⟨-, -, -, hkept⟩ := kept_of_faulted hstep
  exact ⟨_, fault, e', hstep, hkept⟩

end Execution

end Linewise
