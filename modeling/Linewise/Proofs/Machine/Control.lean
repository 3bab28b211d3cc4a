import Linewise.Machine.Execution
import Linewise.Proofs.Machine.Termination

/-!
# Regaining control

Whoever traces an execution gets control back: from every state that it can come to while it is
traced, its next stretch ends after finitely many steps (`Execution.exists_resume`).
-/

namespace Linewise.Execution

variable {σ : Type}

/-- The states that a watched execution can come to, within its stretches and after them. -/
inductive Reachable (w : Watcher σ) (first : Execution) (s₀ : σ) : Execution → σ → Prop
  | start : Reachable w first s₀ first s₀
  /-- One instruction of a stretch. -/
  | step {e e' : Execution} {s s' : σ} {outcome : Option Outcome} (h : Reachable w first s₀ e s)
      (hstep : { e with control := .running }.step w s = (outcome, e', s')) :
      Reachable w first s₀ e' s'
  /-- A stretch that has ended. -/
  | resume {e e' : Execution} {s s' : σ} {outcome : Outcome} {fuel : Nat}
      (h : Reachable w first s₀ e s) (hresume : e.resume w fuel s = some (outcome, e', s')) :
      Reachable w first s₀ e' s'

variable {w : Watcher σ} {e e' first : Execution} {s s' s₀ : σ} {outcome : Outcome}
  {ending : Option Outcome} {fuel : Nat} {P : Code → Prop}

/-- The machine takes the same step whoever watches. -/
theorem step_machine (w : Watcher σ) (e : Execution) (s : σ) :
    (e.step w s).2.1.machine = e.machine.step.machine := by
  rw [step]
  cases e.machine.step with
  | atLine line m =>
    dsimp only
    split
    · split <;> rfl
    · rfl
  | _ => rfl

/-- How far a run has come changes with the instruction that ends it only. -/
theorem control_step (h : e.step w s = (ending, e', s')) :
    e'.control = match ending with
      | some .finished => .done
      | some (.faulted fault) => .faulted fault
      | _ => e.control := by
  rw [step] at h
  split at h
  · cases h; rfl
  · cases h; rfl
  · split at h
    · split at h <;> cases h <;> rfl
    · cases h; rfl
  · cases h; rfl
  · cases h; rfl

/-- What is kept by all that a stretch consists of: its beginning, its instructions, which are not
    run after a fault, and its pause. -/
structure Keeps (w : Watcher σ) (I : Execution → Prop) : Prop where
  begins : ∀ {e}, I e → e.isTerminated = false → I { e with control := .running }
  step : ∀ {e} (s : σ), I e → (∀ fault, e.control ≠ .faulted fault) → I (e.step w s).2.1
  pauses : ∀ {e} (line : Line), I e → e.control = .running → I { e with control := .paused line }

namespace Keeps

variable {I : Execution → Prop}

/-- What a stretch keeps holds at its end if it holds at its beginning. -/
theorem steps (h : Keeps w I) (he : I e) (hcontrol : e.control = .running)
    (hsteps : e.steps w fuel s = some (outcome, e', s')) : I e' := by
  induction fuel generalizing e s with
  | zero => cases hsteps
  | succ fuel ih =>
    have hstep := h.step s he fun fault hfault => nomatch hfault.symm.trans hcontrol
    rw [Execution.steps] at hsteps
    split at hsteps
    next heq =>
      rw [heq] at hstep
      exact ih hstep ((control_step heq).trans hcontrol) hsteps
    next heq =>
      rw [heq] at hstep
      cases hsteps
      -- The stretch ends because a line has been shown and accepted.
      exact h.pauses _ hstep ((control_step heq).trans hcontrol)
    next heq => rw [heq] at hstep; cases hsteps; exact hstep

/-- What is kept by all parts of a stretch is kept by the stretch. -/
theorem resume (h : Keeps w I) (he : I e) (hresume : e.resume w fuel s = some (outcome, e', s')) :
    I e' := by
  rw [Execution.resume] at hresume
  split at hresume
  · cases hresume; exact he
  · cases hresume; exact he
  next hcontrol =>
    have hterminated : e.isTerminated = false := by rw [isTerminated, hcontrol]
    exact h.steps (h.begins he hterminated) rfl hresume
  next hcontrol =>
    have hterminated : e.isTerminated = false := by rw [isTerminated, hcontrol]
    exact h.steps (h.begins he hterminated) rfl hresume

/-- What the steps of the machine keep is kept by stretches. -/
theorem of_machine {J : Machine → Prop} (h : ∀ m, J m → J m.step.machine) :
    Keeps w fun e => J e.machine where
  begins he _ := he
  step s he _ := step_machine w _ s ▸ h _ he
  pauses _ he _ := he

end Keeps

/-- All codes that an execution comes to are of the sort that its first ones are of. -/
theorem Reachable.within (h : Reachable w first s₀ e s) (hP : Code.Closed P)
    (hfirst : first.machine.Within P) : e.machine.Within P := by
  have hkeeps : Keeps w fun e => e.machine.Within P := .of_machine fun _ hm => hm.step hP
  induction h with
  | start => exact hfirst
  | @step e e' s s' outcome h hstep ih =>
    have hkept := hkeeps.step (e := { e with control := .running }) s ih fun _ => nofun
    rwa [hstep] at hkept
  | resume h hresume ih => exact hkeeps.resume ih hresume

/-- A stretch of a traced execution ends when its machine cannot go on for ever without reaching a
    line. -/
theorem exists_steps (w : Watcher σ) {m : Machine} (hacc : Acc Machine.GoesOn m)
    (hm : e.machine = m) (htraced : e.traced = true) (s : σ) : ∃ n r, e.steps w n s = some r := by
  induction hacc generalizing e s with
  | intro m _ ih =>
    cases hstep : m.step with
    | next m' =>
      obtain ⟨n, r, hr⟩ := ih m' (.inl hstep) (e := { e with machine := m' }) rfl htraced s
      refine ⟨n + 1, r, ?_⟩
      rwa [steps, step, hm, hstep]
    | printed text m' =>
      obtain ⟨n, r, hr⟩ := ih m' (.inr ⟨text, hstep⟩) (e := { e with machine := m' }) rfl htraced
        (w.onPrint text s)
      refine ⟨n + 1, r, ?_⟩
      rwa [steps, step, hm, hstep]
    | atLine line m' =>
      -- The watcher is shown the line. Whether it accepts it or fails, the stretch ends.
      cases hline : w.onLine (m'.view line) s with
      | ok s' =>
        refine ⟨1, (.paused line, ⟨m', .paused line, e.traced⟩, s'), ?_⟩
        simp only [steps, step, hm, hstep, htraced, if_true, hline]
      | error failure =>
        refine ⟨1, (.traceFailed failure, ⟨m', e.control, false⟩, s), ?_⟩
        simp only [steps, step, hm, hstep, htraced, if_true, hline]
    | finished m' => exact ⟨1, _, by rw [steps, step, hm, hstep]⟩
    | faulted fault m' => exact ⟨1, _, by rw [steps, step, hm, hstep]⟩

/-- The debugger always regains control. From every state that a traced execution of a program
    comes to, whatever the watcher does, the next stretch ends after finitely many steps, as long
    as the execution is still traced and not over. -/
theorem exists_resume {program : Program} {code : Code} {maxDepth : Nat}
    (hcompile : program.compile = .ok code)
    (hreachable : Reachable w (.start code maxDepth true) s₀ e s) (htraced : e.traced = true)
    (hterminated : e.isTerminated = false) :
    ∃ n outcome e' s', e.resume w n s = some (outcome, e', s') := by
  obtain ⟨-, rfl⟩ := Program.compile_eq_ok_iff.1 hcompile
  have hstart : Machine.Within Code.Guarded (.start program.emit maxDepth) :=
    Machine.within_mk (Frame.within_enter program.guarded_emit Bindings.all_empty) nofun
      Bindings.all_empty
  have hm := hreachable.within Code.guarded_closed hstart
  obtain ⟨n, ⟨outcome, e', s'⟩, hsteps⟩ := exists_steps (e := { e with control := .running }) w
    (Machine.acc_goesOn hm) rfl htraced s
  refine ⟨n, outcome, e', s', ?_⟩
  -- What is over is not run again, but this execution is not.
  rw [isTerminated] at hterminated
  rw [resume]
  split
  next h => rw [h] at hterminated; cases hterminated
  next h => rw [h] at hterminated; cases hterminated
  · exact hsteps
  · exact hsteps

/-- A script that goes round and round on one line. -/
def endless : Program := [.whileLoop 1 (.bool true) [.pass 1]]

/-- The watcher that counts the lines that it is shown. -/
def counter : Watcher Nat := ⟨fun _ count => .ok (count + 1), fun _ count => count⟩

/-- Whoever counts the lines of the endless script gets control back after the first one too. -/
theorem exists_resume_endless :
    ∃ e, (Execution.start endless.emit 1 true).resume counter 1 0 = some (.paused 1, e, 1) ∧
      ∃ n outcome e' s', e.resume counter n 1 = some (outcome, e', s') := by
  obtain ⟨e, hresume, htraced, hterminated⟩ : ∃ e,
      (Execution.start endless.emit 1 true).resume counter 1 0 = some (.paused 1, e, 1) ∧
        e.traced = true ∧ e.isTerminated = false := ⟨_, rfl, rfl, rfl⟩
  have hcompile : endless.compile = .ok endless.emit := rfl
  exact ⟨e, hresume, exists_resume hcompile (.resume .start hresume) htraced
    hterminated⟩

end Linewise.Execution
