import Linewise.Machine.Execution

/-!
# Runs of the machine

A machine runs untraced through *stages*: a machine, and all texts printed up to it
(`Stage`). A step leads to the next stage unless it ends the run (`Stage.next?`), and a stretch of
`n` steps to a later one (`Stage.Steps`).

An untraced execution goes through the same stages (`Execution.steps_eq_of_steps`): whoever watches
it has been told the texts printed so far and nothing else (`Watcher.hear`).
-/

namespace Linewise

/-- A machine, and all texts that its run has printed, in order. -/
structure Stage where
  machine : Machine
  printed : List String

namespace Stage

/-- The stage after a step, `none` when the step ends the run. -/
def next? (a : Stage) : Option Stage :=
  match a.machine.step with
  | .next m | .atLine _ m => some ⟨m, a.printed⟩
  | .printed text m => some ⟨m, a.printed ++ [text]⟩
  | .finished _ | .faulted _ _ => none

/-- A stretch of `n` steps leads from one stage to another. -/
inductive Steps : Nat → Stage → Stage → Prop
  | refl (a : Stage) : Steps 0 a a
  | head {n : Nat} {a b c : Stage} : a.next? = some b → Steps n b c → Steps (n + 1) a c

variable {a b c : Stage} {n k : Nat}

theorem Steps.trans (hab : Steps n a b) (hbc : Steps k b c) : Steps (n + k) a c := by
  induction hab with
  | refl => rwa [Nat.zero_add]
  | head h _ ih => rw [Nat.add_right_comm]; exact .head h (ih hbc)

theorem Steps.single (h : a.next? = some b) : Steps 1 a b := .head h (.refl b)

end Stage

namespace Watcher

variable {σ : Type}

/-- The state of a watcher that has been told some texts. -/
def hear (w : Watcher σ) (s : σ) (texts : List String) : σ :=
  texts.foldl (fun s text => w.onPrint text s) s

@[simp]
theorem hear_concat (w : Watcher σ) (s : σ) (texts : List String) (text : String) :
    w.hear s (texts ++ [text]) = w.onPrint text (w.hear s texts) := by
  simp [hear]

end Watcher

namespace Execution

variable {σ : Type} {w : Watcher σ} {s : σ} {e : Execution} {a b : Stage} {n fuel : Nat}

/-- A step of an untraced execution that does not end it leads to the next stage. -/
theorem step_of_next? (hm : e.machine = a.machine) (ht : e.traced = false)
    (h : a.next? = some b) :
    e.step w (w.hear s a.printed) =
      (none, { e with machine := b.machine }, w.hear s b.printed) := by
  rw [Stage.next?] at h
  rw [step, hm]
  split at h <;> cases h <;> simp_all

/-- An untraced execution goes through the stages of its machine. -/
theorem steps_eq_of_steps (h : Stage.Steps n a b) (fuel : Nat) (hm : e.machine = a.machine)
    (ht : e.traced = false) :
    e.steps w (n + fuel) (w.hear s a.printed) =
      { e with machine := b.machine }.steps w fuel (w.hear s b.printed) := by
  induction h generalizing e with
  | refl => rw [Nat.zero_add, ← hm]
  | head hab _ ih =>
    rw [Nat.add_right_comm, steps, step_of_next? hm ht hab]
    exact ih rfl ht

/-- An untraced execution that goes on for `n` steps has not ended after fewer. -/
theorem steps_eq_none_of_steps (h : Stage.Steps n a b) (hn : fuel ≤ n)
    (hm : e.machine = a.machine) (ht : e.traced = false) :
    e.steps w fuel (w.hear s a.printed) = none := by
  induction fuel generalizing n a e with
  | zero => rfl
  | succ fuel ih =>
    cases h with
    | refl => exact absurd hn (Nat.not_succ_le_zero _)
    | head hab hbc =>
      rw [steps, step_of_next? hm ht hab]
      exact ih hbc (Nat.le_of_succ_le_succ hn) rfl ht

/-- What comes of a stretch of a run does not depend on the fuel. -/
theorem steps_succ {r : Outcome × Execution × σ} (h : e.steps w fuel s = some r) :
    e.steps w (fuel + 1) s = some r := by
  induction fuel generalizing e s with
  | zero => cases h
  | succ fuel ih =>
    rw [steps] at h ⊢
    split at h
    · exact ih h
    · exact h
    · exact h

/-- With more fuel, a stretch is the same. -/
theorem steps_mono {r : Outcome × Execution × σ} {fuel' : Nat} (hle : fuel ≤ fuel')
    (h : e.steps w fuel s = some r) : e.steps w fuel' s = some r := by
  induction hle with
  | refl => exact h
  | step _ ih => exact steps_succ ih

end Execution

end Linewise
