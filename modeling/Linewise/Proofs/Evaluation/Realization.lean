import Linewise.Code.Emission
import Linewise.Proofs.Bindings
import Linewise.Proofs.Evaluation.Basic
import Linewise.Proofs.Machine.Run
import Linewise.Proofs.Syntax.Legal
import Linewise.Proofs.Value.Functions

/-!
# Evaluations on the machine

How an evaluation and a run of the machine belong together. Both have the same bindings up to the
replacement of each definition by its code (`Definition.code`), and both print the same texts. A
stage of a run *realizes* an evaluation (`Stage.Realizes`) when

* it leads to a stage where the machine has done what the evaluation did, if that has a value;
* it leads to a stage whose next step faults for the same cause, if that faults;
* it goes on for at least `fuel` steps, if that runs out of fuel.

Whether the line of a fault is the same is a matter of its own, as it takes a program whose lines
ascend. So all of this has a proposition `tracked` as a parameter: the machine is only claimed to be
on the line that the evaluation is on if that holds, and definitions need lines that ascend only
then (`Definition.IsLegal`). Nothing else depends on lines.

The third case makes the correspondence work in both directions: a run that ends after `n` steps
realizes only evaluations that do not run out of a fuel of more than `n`.

Realizations compose as evaluations do (`Stage.Realizes.bind`).
-/

namespace Linewise

/-! ## Definitions and their code -/

/-- The code of a definition. -/
def Definition.code (d : Definition) : Code where
  name := d.name
  params := d.params
  instrs := Stmt.emitAll none d.line 0 d.body ++ [.const .none, .leave]
  firstLine := d.line
  ident := d.ident

theorem keepsHandles_code : KeepsHandles Definition.code := ⟨fun _ => rfl, fun _ => rfl⟩

/-- The value with the codes of the definitions in it. -/
abbrev Value.code (v : Value Definition) : Value Code := v.map Definition.code

section

variable (tracked : Prop)

/-- A definition with a legal body and a name of its own. Its lines ascend where lines are
    tracked. -/
structure Definition.IsLegal (d : Definition) : Prop where
  body : Legal .function d.body
  ascends : tracked → Ascending d.body
  name_ne : d.name ≠ Code.moduleName

/-- All definitions in a value are legal. -/
abbrev Value.IsLegal (v : Value Definition) : Prop := v.Within (Definition.IsLegal tracked)

/-- All definitions that are bound globally are legal. -/
def World.IsLegal (w : World) : Prop := w.globals.All (Value.IsLegal tracked)

/-- All definitions that are bound locally are legal. -/
def Scope.IsLegal (scope : Scope) : Prop :=
  ∀ locals ∈ scope, Bindings.All (Value.IsLegal tracked) locals

/-- Two faults have the same cause, and the same line where lines are tracked. -/
structure Fault.Agrees (fault fault' : Fault) : Prop where
  cause : fault.cause = fault'.cause
  line : tracked → fault.line = fault'.line

end

variable {tracked : Prop}

theorem Definition.IsLegal.isModule_code {d : Definition} (h : d.IsLegal tracked) :
    d.code.isModule = false := by
  simp [Code.isModule, code, h.name_ne]

/-- Two faults with one cause agree if their lines do, wherever the lines are tracked. -/
theorem Fault.agrees_onLine {cause : Cause} {line line' : Line} (h : tracked → line = line') :
    (Fault.onLine cause line).Agrees tracked (.onLine cause line') :=
  ⟨rfl, fun htracked => by rw [h htracked]⟩

/-! ## Outcomes -/

namespace Eval

variable {α β : Type} {w : World}

@[simp]
theorem outcome_get : (get : Eval World).outcome w = some (.ok w, w) := rfl

/-- One computation after the other: the second begins in the world that the first leaves, unless
    that fails or runs out of fuel. -/
theorem outcome_bind (x : Eval α) (f : α → Eval β) :
    (x >>= f).outcome w = match x.outcome w with
      | none => none
      | some (.error fault, w) => some (.error fault, w)
      | some (.ok a, w) => (f a).outcome w := by
  simp only [outcome, bind, ExceptT.bind, ExceptT.run, ExceptT.mk, StateT.bind, StateT.run,
    Option.bind]
  cases x w with
  | none => rfl
  | some p =>
    obtain ⟨a, w⟩ := p
    cases a <;> rfl

end Eval

/-! ## Realizations -/

namespace Stage

variable {α β : Type}

/-- The next step faults as an evaluation does, with the globals of a world and what has been
    printed in it. -/
def FaultsWith (tracked : Prop) (b : Stage) (fault : Fault) (w : World) : Prop :=
  ∃ fault' m, b.machine.step = .faulted fault' m ∧ fault'.Agrees tracked fault ∧
    m.globals = w.globals.map Value.code ∧ b.printed = w.printed

/-- The run from a stage does what an evaluation does, to the point that `ends` describes. -/
def Realizes (tracked : Prop) (fuel : Nat) (a : Stage) (ends : α → World → Stage → Prop) :
    Option (Except Fault α × World) → Prop
  | none => ∃ n b, Steps n a b ∧ fuel ≤ n
  | some (.error fault, w) => ∃ n b, Steps n a b ∧ b.FaultsWith tracked fault w
  | some (.ok v, w) => ∃ n b, Steps n a b ∧ ends v w b

namespace Realizes

variable {a b : Stage} {fuel n : Nat} {w : World} {r : Option (Except Fault α × World)}
  {ends ends' : α → World → Stage → Prop}

/-- A stage that leads to one that realizes an evaluation realizes it too, for longer. -/
theorem of_steps (hab : Steps n a b) (h : b.Realizes tracked fuel ends r) :
    a.Realizes tracked (n + fuel) ends r := by
  match r, h with
  | none, ⟨k, c, hbc, hk⟩ => exact ⟨n + k, c, hab.trans hbc, Nat.add_le_add_left hk n⟩
  | some (.error _, _), ⟨k, c, hbc, hc⟩ => exact ⟨n + k, c, hab.trans hbc, hc⟩
  | some (.ok _, _), ⟨k, c, hbc, hc⟩ => exact ⟨n + k, c, hab.trans hbc, hc⟩

/-- What is realized with some fuel is so with less, as then less is claimed. -/
theorem mono {fuel' : Nat} (hle : fuel' ≤ fuel) (h : a.Realizes tracked fuel ends r) :
    a.Realizes tracked fuel' ends r := by
  match r, h with
  | none, ⟨k, c, hac, hk⟩ => exact ⟨k, c, hac, Nat.le_trans hle hk⟩
  | some (.error _, _), h => exact h
  | some (.ok _, _), h => exact h

/-- One step more in front. -/
theorem of_next (hab : a.next? = some b) (h : b.Realizes tracked fuel ends r) :
    a.Realizes tracked (fuel + 1) ends r :=
  Nat.add_comm 1 fuel ▸ of_steps (.single hab) h

/-- One step more in front, which is not counted. -/
theorem step (hab : a.next? = some b) (h : b.Realizes tracked fuel ends r) :
    a.Realizes tracked fuel ends r :=
  (of_next hab h).mono (Nat.le_succ fuel)

theorem pure {v : α} (h : ends v w a) :
    a.Realizes tracked fuel ends ((Pure.pure v : Eval α).outcome w) :=
  ⟨0, a, .refl a, h⟩

theorem throw {fault : Fault} (h : a.FaultsWith tracked fault w) :
    a.Realizes tracked fuel ends ((MonadExcept.throw fault : Eval α).outcome w) :=
  ⟨0, a, .refl a, h⟩

theorem exhausted : a.Realizes tracked 0 ends ((Eval.exhausted : Eval α).outcome w) :=
  ⟨0, a, .refl a, Nat.le_refl 0⟩

/-- One evaluation after the other is realized by one realization after the other. -/
theorem bind {x : Eval α} {f : α → Eval β} {ends' : β → World → Stage → Prop}
    (hx : a.Realizes tracked fuel ends (x.outcome w))
    (hf : ∀ v w b, ends v w b → b.Realizes tracked fuel ends' ((f v).outcome w)) :
    a.Realizes tracked fuel ends' ((x >>= f).outcome w) := by
  rw [Eval.outcome_bind]
  match x.outcome w, hx with
  | none, h => exact h
  | some (.error _, _), h => exact h
  | some (.ok v, w), ⟨n, b, hab, hb⟩ =>
    -- The steps of `x` come on top: what follows them has the whole fuel already.
    exact (of_steps hab (hf v w b hb)).mono (Nat.le_add_left fuel n)

/-- A realization goes on for as long as its ends lead on. -/
theorem extend (h : a.Realizes tracked fuel ends r)
    (himp : ∀ v w b, ends v w b → b.Realizes tracked fuel ends' (some (.ok v, w))) :
    a.Realizes tracked fuel ends' r := by
  match r, h with
  | none, h => exact h
  | some (.error _, _), h => exact h
  | some (.ok v, w), ⟨n, b, hab, hb⟩ =>
    exact (of_steps hab (himp v w b hb)).mono (Nat.le_add_left fuel n)

/-- What a realization ends with may be weakened. -/
theorem imp (himp : ∀ v w b, ends v w b → ends' v w b) (h : a.Realizes tracked fuel ends r) :
    a.Realizes tracked fuel ends' r :=
  h.extend fun v w b hb => .pure (himp v w b hb)

/-- An operation on a line is realized where its value is, and where its fault is. -/
theorem onLine {e : Except Cause α} {line : Line}
    (hok : ∀ v, e = .ok v → a.Realizes tracked fuel ends (some (.ok v, w)))
    (herror : ∀ cause, e = .error cause → a.FaultsWith tracked (.onLine cause line) w) :
    a.Realizes tracked fuel ends ((Eval.onLine line e).outcome w) := by
  cases e with
  | ok v => exact hok v rfl
  | error cause => exact throw (herror cause rfl)

/-- What is done with the value of an operation on a line is realized where the operation is. -/
theorem onLine_bind {e : Except Cause α} {line : Line} {f : α → Eval β}
    {ends : β → World → Stage → Prop}
    (hok : ∀ v, e = .ok v → a.Realizes tracked fuel ends ((f v).outcome w))
    (herror : ∀ cause, e = .error cause → a.FaultsWith tracked (.onLine cause line) w) :
    a.Realizes tracked fuel ends ((Eval.onLine line e >>= f).outcome w) := by
  rw [Eval.outcome_bind]
  cases e with
  | ok v => exact hok v rfl
  | error cause => exact throw (herror cause rfl)

end Realizes

end Stage

end Linewise
