import Mathlib.Logic.Relation
import Linewise.Controller.Debugger
import Linewise.Proofs.Session.Fuel

/-!
# Driving

A policy drives a debugger round after round. Apart from the bounds on the rounds and on the steps
of the worker in each of them, driving follows one way from state to state (`Debugger.ComesTo`), up
to the state in which the policy has enough (`Debugger.exists_drive_iff`). It does not matter how
large the bounds are, once they are large enough (`Debugger.drive_of_comesTo`).
-/

namespace Linewise

namespace Debugger

variable {υ : Type} {surface : Surface υ} {policy : Policy} {d d' d₁ : Debugger υ}
  {fuel fuel' rounds rounds' : Nat}

/-! ## More fuel -/

/-- With more fuel, what settles settles in the same way. -/
theorem settle_mono (hle : fuel ≤ fuel') (h : d.settle fuel = some d') :
    d.settle fuel' = some d' := by
  rw [settle, Crew.settle] at h ⊢
  cases hpresent : d.workers.present with
  | none => rwa [hpresent] at h
  | some worker =>
    rw [hpresent] at h
    obtain ⟨crew, hcrew, hd'⟩ := Option.map_eq_some_iff.1 h
    obtain ⟨settled, hsettle, hsettled⟩ := Option.map_eq_some_iff.1 hcrew
    exact Option.map_eq_some_iff.2
      ⟨crew, Option.map_eq_some_iff.2 ⟨settled, Worker.settle_mono hle hsettle, hsettled⟩, hd'⟩

/-- A round that leads on is the same with more fuel. -/
theorem round_eq_next_mono (hle : fuel ≤ fuel') (h : d.round surface fuel policy = .next d') :
    d.round surface fuel' policy = .next d' := by
  rw [round] at h ⊢
  split at h
  · cases h
  · exact h
  · exact h
  · split at h
    next hlistens =>
      rw [if_pos hlistens]
      cases hsettle : d.settle fuel with
      | none => rw [hsettle] at h; cases h
      | some settled =>
        rw [hsettle] at h
        rwa [settle_mono hle hsettle]
    next => cases h

/-- A round that ends the driving does so with any fuel. -/
theorem round_eq_over (h : d.round surface fuel policy = .over) (fuel' : Nat) :
    d.round surface fuel' policy = .over := by
  rw [round] at h ⊢
  split at h
  · rfl
  · cases h
  · cases h
  · split at h
    · split at h <;> cases h
    next hdeaf => rw [if_neg hdeaf]

/-! ## The way of a policy -/

/-- A round of a policy leads from one debugger to another. -/
def GoesTo (surface : Surface υ) (policy : Policy) (d d' : Debugger υ) : Prop :=
  ∃ fuel, d.round surface fuel policy = .next d'

/-- Rounds of a policy lead from one debugger to another. -/
def ComesTo (surface : Surface υ) (policy : Policy) : Debugger υ → Debugger υ → Prop :=
  Relation.ReflTransGen (GoesTo surface policy)

/-- A policy has enough of a debugger. -/
def IsOver (surface : Surface υ) (policy : Policy) (d : Debugger υ) : Prop :=
  ∃ fuel, d.round surface fuel policy = .over

theorem ComesTo.refl (d : Debugger υ) : ComesTo surface policy d d := Relation.ReflTransGen.refl

theorem ComesTo.head (h : GoesTo surface policy d d₁) (h' : ComesTo surface policy d₁ d') :
    ComesTo surface policy d d' := Relation.ReflTransGen.head h h'

theorem ComesTo.trans (h : ComesTo surface policy d d₁) (h' : ComesTo surface policy d₁ d') :
    ComesTo surface policy d d' := Relation.ReflTransGen.trans h h'

theorem GoesTo.comesTo (h : GoesTo surface policy d d') : ComesTo surface policy d d' :=
  Relation.ReflTransGen.single h

theorem isOver_of_stop (h : policy d.state = .stop) : IsOver surface policy d :=
  ⟨0, by rw [round, h]⟩

/-- Whoever waits goes on with the next message, once the worker has done what it was asked. -/
theorem goesTo_of_wait (h : policy d.state = .wait) (hlistens : d.state.isListening = true)
    (hsettle : d.settle fuel = some d₁) (hdeliver : d₁.deliver? surface = some d') :
    GoesTo surface policy d d' := by
  refine ⟨fuel, ?_⟩
  rw [round, h]
  simp only [hlistens, if_true, hsettle, Option.bind_some, hdeliver]

/-- A policy that says to run does so in one round. -/
theorem goesTo_of_run (h : policy d.state = .run) :
    GoesTo surface policy d (Controller.run (desk surface) d) :=
  ⟨0, by rw [round, h]⟩

/-- The rounds that are made lead somewhere. -/
theorem comesTo_of_drive (h : d.drive surface fuel policy rounds = some d') :
    ComesTo surface policy d d' ∧ IsOver surface policy d' := by
  induction rounds generalizing d with
  | zero => cases h
  | succ rounds ih =>
    rw [drive] at h
    cases hround : d.round surface fuel policy with
    | next next =>
      rw [hround] at h
      obtain ⟨hcomes, hover⟩ := ih h
      exact ⟨.head ⟨fuel, hround⟩ hcomes, hover⟩
    | stuck => rw [hround] at h; cases h
    | _ =>
      rw [hround] at h
      obtain rfl := Option.some.inj h
      exact ⟨.refl d, fuel, hround⟩

/-- Wherever rounds lead that end the driving, this is where any large enough bounds lead. -/
theorem drive_of_comesTo (h : ComesTo surface policy d d') (hover : IsOver surface policy d') :
    ∃ n, ∀ fuel rounds, n ≤ fuel → n ≤ rounds →
      d.drive surface fuel policy rounds = some d' := by
  induction h using Relation.ReflTransGen.head_induction_on with
  | refl =>
    obtain ⟨fuel', hround⟩ := hover
    refine ⟨1, fun fuel rounds _ hrounds => ?_⟩
    obtain ⟨more, rfl⟩ := Nat.exists_eq_add_one.2 hrounds
    rw [drive, round_eq_over hround]
  | head hgoes _ ih =>
    obtain ⟨enough, hround⟩ := hgoes
    obtain ⟨n, hrest⟩ := ih
    refine ⟨n + 1 + enough, fun fuel rounds hfuel hrounds => ?_⟩
    obtain ⟨more, rfl⟩ := Nat.exists_eq_add_one.2 (by omega : 0 < rounds)
    rw [drive, round_eq_next_mono (by omega) hround]
    exact hrest fuel more (by omega) (by omega)

/-- All that comes of driving is what rounds lead to that end it. -/
theorem exists_drive_iff :
    (∃ fuel rounds, d.drive surface fuel policy rounds = some d') ↔
      ComesTo surface policy d d' ∧ IsOver surface policy d' := by
  constructor
  · rintro ⟨fuel, rounds, h⟩
    exact comesTo_of_drive h
  · rintro ⟨hcomes, hover⟩
    obtain ⟨n, h⟩ := drive_of_comesTo hcomes hover
    exact ⟨n, n, h n n (Nat.le_refl n) (Nat.le_refl n)⟩

/-- Driving has one result. -/
theorem drive_unique (h : d.drive surface fuel policy rounds = some d')
    (h' : d.drive surface fuel' policy rounds' = some d₁) : d' = d₁ := by
  obtain ⟨hcomes, hover⟩ := comesTo_of_drive h
  obtain ⟨hcomes', hover'⟩ := comesTo_of_drive h'
  obtain ⟨n, hlarge⟩ := drive_of_comesTo hcomes hover
  obtain ⟨k, hlarge'⟩ := drive_of_comesTo hcomes' hover'
  have heq := hlarge (n + k) (n + k) (by omega) (by omega)
  rw [hlarge' (n + k) (n + k) (by omega) (by omega)] at heq
  exact (Option.some.inj heq).symm

end Debugger

end Linewise
