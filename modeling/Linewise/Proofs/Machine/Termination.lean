import Linewise.Proofs.Machine.Trace
import Linewise.Proofs.Machine.Within

/-!
# Stretches of a run are finite

A run can go on for ever, but not without reaching a line. In a guarded code every step that
reaches none leads forward, to a `line` instruction or into or out of a function. So the frames
between two lines only ever get closer to their ends, from the outermost one on: a frame moves
before it calls, and stands where it moved to when the call is over. As there is room for a number
of frames only, a stretch without a line comes to an end (`Machine.acc_goesOn`).
-/

namespace Linewise

theorem Code.guarded_closed : Code.Closed Code.Guarded := by
  rintro code ⟨-, hconst, hmake⟩
  refine ⟨fun hv => ?_, fun hinner => hmake hinner⟩
  rw [Value.Within, hconst hv]
  rintro _ ⟨⟩

namespace Machine

/-- The machine leads to another one by a step that reaches no line and ends nothing. -/
def GoesOn (m' m : Machine) : Prop := m.step = .next m' ∨ ∃ text, m.step = .printed text m'

variable {m m' : Machine} {frame : Frame} {callers : List Frame}
  {globals : Bindings (Value Code)} {maxDepth : Nat}

/-- A run that goes on stays within what its codes are closed under. -/
theorem GoesOn.within {P : Code → Prop} (h : GoesOn m' m) (hP : Code.Closed P) (hm : m.Within P) :
    m'.Within P := by
  have hstep := hm.step hP
  rcases h with h | ⟨_, h⟩ <;> rwa [h] at hstep

/-- A machine that is at a `line` instruction does not go on without reaching a line. -/
theorem acc_of_line (h : frame.code.HasLineAt frame.next) :
    Acc GoesOn ⟨frame :: callers, globals, maxDepth⟩ := by
  obtain ⟨line, hline⟩ := h
  refine ⟨_, fun m' hgo => ?_⟩
  rcases hgo with hgo | ⟨_, hgo⟩ <;> rw [step_eq_execute rfl hline] at hgo <;> cases hgo

/-- A machine goes on in its innermost frame, or into or out of a function. -/
theorem GoesOn.cases (h : GoesOn m' ⟨frame :: callers, globals, maxDepth⟩) :
    ∃ instr, frame.code.instrs[frame.next]? = some instr ∧
      ((∃ frame' globals', m' = ⟨frame' :: callers, globals', maxDepth⟩ ∧
          frame'.code = frame.code ∧
          (frame'.next = frame.next + 1 ∨ frame'.next ∈ instr.targets)) ∨
        (∃ code locals stack, m' = ⟨.enter code locals ::
            { frame with next := frame.next + 1, stack } :: callers, globals, maxDepth⟩ ∧
          callers.length + 1 < maxDepth) ∨
        ∃ caller outer v, callers = caller :: outer ∧
          m' = ⟨caller.push v :: outer, globals, maxDepth⟩) := by
  have hsteps := step_steps ⟨frame :: callers, globals, maxDepth⟩
  rw [GoesOn] at h
  generalize step _ = progress at h hsteps
  cases hsteps with
  | empty hframes => cases hframes
  | ends | falls => rcases h with h | ⟨_, h⟩ <;> cases h
  | @executes _ _ instr _ hframes hinstr hexec =>
    cases hframes
    refine ⟨instr, hinstr, ?_⟩
    cases hexec with
    | stays hcode hplace =>
      rcases h with h | ⟨_, h⟩ <;> cases h
      exact .inl ⟨_, _, rfl, hcode, Instr.next_of_mem_exits hplace⟩
    | prints =>
      rcases h with h | ⟨_, h⟩ <;> cases h
      exact .inl ⟨_, _, rfl, rfl, .inl rfl⟩
    | enters _ _ hroom =>
      rcases h with h | ⟨_, h⟩ <;> cases h
      exact .inr (.inl ⟨_, _, _, rfl, hroom⟩)
    | leaves hcallers =>
      rcases h with h | ⟨_, h⟩ <;> cases h
      exact .inr (.inr ⟨_, _, _, hcallers, rfl⟩)
    | reaches | finishes | fails => rcases h with h | ⟨_, h⟩ <;> cases h

/-- The callers of a frame are ready for its value: with it, no stretch is without end. -/
def Awaits (maxDepth : Nat) : List Frame → Prop
  | [] => True
  | caller :: outer => ∀ v globals, v.Within Code.Guarded →
    globals.All (Value.Within Code.Guarded) →
      Acc GoesOn ⟨caller.push v :: outer, globals, maxDepth⟩

/-- A frame comes to an end when its callers are ready for it and the functions come to one that
    it may call. -/
theorem acc_of_awaits (hawaits : Awaits maxDepth callers)
    (hcallers : ∀ frame ∈ callers, frame.Within Code.Guarded)
    (henter : callers.length + 1 < maxDepth → ∀ {caller entered globals},
      Awaits maxDepth (caller :: callers) → caller.Within Code.Guarded →
      entered.Within Code.Guarded → globals.All (Value.Within Code.Guarded) →
      Acc GoesOn ⟨entered :: caller :: callers, globals, maxDepth⟩)
    (hframe : frame.Within Code.Guarded) (hglobals : globals.All (Value.Within Code.Guarded)) :
    Acc GoesOn ⟨frame :: callers, globals, maxDepth⟩ := by
  -- The frame moves forward in every step that does not take it to a `line` instruction.
  induction hn : frame.code.instrs.length - frame.next using Nat.strongRecOn
    generalizing frame globals with
  | ind n ih =>
    refine ⟨_, fun m' hgo => ?_⟩
    have hm' := hgo.within Code.guarded_closed (within_mk hframe hcallers hglobals)
    obtain ⟨instr, hinstr, hcases⟩ := hgo.cases
    have hlt : frame.next < frame.code.instrs.length := (List.getElem?_eq_some_iff.1 hinstr).1
    -- Whatever the globals are, a later address in the same code is closer to its end.
    have hforward : ∀ {frame' : Frame} {globals}, frame'.code = frame.code →
        frame.next < frame'.next → frame'.Within Code.Guarded →
        globals.All (Value.Within Code.Guarded) →
        Acc GoesOn ⟨frame' :: callers, globals, maxDepth⟩ :=
      fun hcode hnext hframe' hglobals' =>
        ih _ (by rw [hcode, ← hn]; exact Nat.sub_lt_sub_left hlt hnext) hframe' hglobals' rfl
    rcases hcases with ⟨frame', globals', rfl, hcode, hnext⟩ | ⟨code, locals, stack, rfl, hroom⟩ |
      ⟨caller, outer, v, rfl, rfl⟩
    · have hframe' := (List.forall_mem_cons.1 hm'.frames).1
      rcases hnext with hnext | htarget
      · exact hforward hcode (hnext ▸ Nat.lt_succ_self _) hframe' hm'.globals
      · obtain ⟨hjumps, -, -⟩ := hframe.code
        rcases hjumps hinstr htarget with hlater | hline
        · exact hforward hcode hlater hframe' hm'.globals
        · exact acc_of_line (by rwa [hcode])
    · -- The frame has moved on before it is a caller, so it is ready for the value of the call.
      obtain ⟨hentered, hrest⟩ := List.forall_mem_cons.1 hm'.frames
      have hcaller := (List.forall_mem_cons.1 hrest).1
      refine henter hroom (fun v globals hv hglobals => ?_) hcaller hentered hm'.globals
      exact hforward rfl (Nat.lt_succ_self _) (hcaller.push hv) hglobals
    · have hcaller := (List.forall_mem_cons.1 hm'.frames).1
      exact hawaits v _ (hcaller.stack v List.mem_cons_self) hm'.globals

/-- The innermost frame comes to an end when its callers are ready for it, by induction on the
    number of frames that there is room for. -/
theorem acc_of_room (room : Nat) (hroom : maxDepth - (callers.length + 1) = room)
    (hawaits : Awaits maxDepth callers)
    (hcallers : ∀ frame ∈ callers, frame.Within Code.Guarded)
    (hframe : frame.Within Code.Guarded) (hglobals : globals.All (Value.Within Code.Guarded)) :
    Acc GoesOn ⟨frame :: callers, globals, maxDepth⟩ := by
  induction room generalizing callers frame globals with
  | zero =>
    exact acc_of_awaits hawaits hcallers (fun h => absurd h (by omega)) hframe hglobals
  | succ room ih =>
    refine acc_of_awaits hawaits hcallers ?_ hframe hglobals
    intro _ caller entered globals hawaits hcaller hentered hglobals
    exact ih (by rw [List.length_cons]; omega) hawaits
      (List.forall_mem_cons.2 ⟨hcaller, hcallers⟩) hentered hglobals

/-- Callers are ready for a value because they come to an end themselves. -/
theorem awaits_of_within (hcallers : ∀ frame ∈ callers, frame.Within Code.Guarded) :
    Awaits maxDepth callers := by
  induction callers with
  | nil => trivial
  | cons caller outer ih =>
    obtain ⟨hcaller, houter⟩ := List.forall_mem_cons.1 hcallers
    exact fun v globals hv hglobals =>
      acc_of_room _ rfl (ih houter) houter (hcaller.push hv) hglobals

/-- No machine with guarded codes goes on for ever without reaching a line. -/
theorem acc_goesOn (hm : m.Within Code.Guarded) : Acc GoesOn m := by
  obtain ⟨frames, globals, maxDepth⟩ := m
  cases frames with
  | nil => exact ⟨_, fun m' hgo => by rcases hgo with h | ⟨_, h⟩ <;> cases h⟩
  | cons frame callers =>
    obtain ⟨hframe, hcallers⟩ := List.forall_mem_cons.1 hm.frames
    exact acc_of_room _ rfl (awaits_of_within hcallers) hcallers hframe hm.globals

end Machine

end Linewise
