import Mathlib
import Linewise.Proofs.Machine.Balance
import Linewise.Proofs.Machine.Control
import Linewise.Proofs.Syntax.Parse

/-!
# The machine does not break down

Whoever drives an execution, by single steps and by stretches of it (`Execution.Driven`), never
meets a breakdown of the machine, as long as no instruction is run after a fault. A stretch takes
care of that, as it leaves a run that is over as it is; a step does not, and so an instruction
after one that has faulted can miss its operands (`Execution.breaks_down_past_fault`).
-/

namespace Linewise.Execution

variable {σ : Type}

/-- The run has not ended with a fault. -/
def IsUnfaulted (e : Execution) : Prop := ∀ fault, e.control ≠ .faulted fault

/-- The states that somebody can drive an execution to, by single steps where `may` allows them
    and by stretches. -/
inductive Driven (w : Watcher σ) (may : Execution → Prop) (first : Execution) (s₀ : σ) :
    Execution → σ → Prop
  | start : Driven w may first s₀ first s₀
  | step {e e' : Execution} {s s' : σ} {ending : Option Outcome} (h : Driven w may first s₀ e s)
      (hmay : may e) (hstep : e.step w s = (ending, e', s')) : Driven w may first s₀ e' s'
  | resume {e e' : Execution} {s s' : σ} {outcome : Outcome} {fuel : Nat}
      (h : Driven w may first s₀ e s) (hresume : e.resume w fuel s = some (outcome, e', s')) :
      Driven w may first s₀ e' s'

variable {w : Watcher σ} {may : Execution → Prop} {I : Execution → Prop}
  {e e' first : Execution} {s s' s₀ : σ} {outcome : Outcome} {fuel : Nat}

/-- What stretches and the allowed steps keep holds of all states of an execution. -/
theorem Keeps.driven (hI : Keeps w I) (hstep : ∀ {e} (s : σ), I e → may e → I (e.step w s).2.1)
    (hfirst : I first) (h : Driven w may first s₀ e s) : I e := by
  induction h with
  | start => exact hfirst
  | @step _ e' s _ _ _ hmay hnext ih =>
    have hkept := hstep s ih hmay
    rwa [hnext] at hkept
  | resume _ hresume ih => exact hI.resume ih hresume

/-- What the steps of the machine keep holds of the machine in all states of an execution. -/
theorem Driven.machine {J : Machine → Prop} (h : Driven w may first s₀ e s)
    (hJ : ∀ m, J m → J m.step.machine) (hfirst : J first.machine) : J e.machine :=
  (Keeps.of_machine hJ).driven (fun s he _ => step_machine w _ s ▸ hJ _ he) hfirst h

/-- A stretch that ends with a fault leaves the run at it. -/
theorem control_steps {fault : Fault} (h : e.steps w fuel s = some (.faulted fault, e', s')) :
    e'.control = .faulted fault := by
  induction fuel generalizing e s with
  | zero => cases h
  | succ fuel ih =>
    rw [steps] at h
    split at h
    · exact ih h
    · cases h
    next heq => cases h; exact control_step heq

/-- A stretch that ends with a fault leaves the execution faulted. -/
theorem control_resume {fault : Fault} (h : e.resume w fuel s = some (.faulted fault, e', s')) :
    e'.control = .faulted fault := by
  rw [resume] at h
  split at h
  next hcontrol => cases h; exact hcontrol
  · cases h
  all_goals exact control_steps h

/-- What holds of an execution whose machine has not run on after a fault. -/
structure Balanced (e : Execution) : Prop where
  upright : e.machine.Upright
  balanced : e.IsUnfaulted → e.machine.Balanced
  marked : e.machine.Marked
  finished : e.control = .done → e.machine.step = .finished e.machine
  faulted : ∀ fault, e.control = .faulted fault → fault.cause.kind ≠ .systemError

namespace Balanced

/-- An execution that is not over is balanced when its machine is. -/
theorem of_machine {m : Machine} {control : Control} {traced : Bool} (hupright : m.Upright)
    (hm : m.Balanced) (hgoes : control ≠ .done) (hunfaulted : ∀ fault, control ≠ .faulted fault) :
    Balanced ⟨m, control, traced⟩ where
  upright := hupright
  balanced _ := hm
  marked := hm.marked
  finished hdone := absurd hdone hgoes
  faulted fault hfault := absurd hfault (hunfaulted fault)

/-- An execution stays balanced with every instruction that is not run after a fault. -/
theorem step (h : e.Balanced) (hunfaulted : e.IsUnfaulted) (s : σ) :
    (e.step w s).2.1.Balanced := by
  have hupright := h.upright.step
  have hregular := (h.balanced hunfaulted).step h.upright.stacked h.upright.carries
  have hdone := h.finished
  rw [Execution.step]
  generalize hprogress : e.machine.step = progress at hupright hregular hdone
  cases progress with
  | next m | printed text m =>
    -- What is done would have finished again.
    exact of_machine hupright hregular (fun hc => by cases hdone hc) hunfaulted
  | atLine line m =>
    have hgoes : e.control ≠ .done := fun hc => by cases hdone hc
    dsimp only
    split
    · split <;> exact of_machine hupright hregular hgoes hunfaulted
    · exact of_machine hupright hregular hgoes hunfaulted
  | finished m =>
    obtain ⟨rfl, -⟩ := hregular
    have hm := h.balanced hunfaulted
    refine ⟨hupright, fun _ => hm, hm.marked, fun _ => hprogress, ?_⟩
    rintro _ ⟨⟩
  | faulted fault m =>
    obtain ⟨hkind, hmarked⟩ := hregular
    refine ⟨hupright, fun h => absurd rfl (h fault), hmarked, ?_, ?_⟩
    · rintro ⟨⟩
    · rintro _ ⟨⟩
      exact hkind

/-- A stretch keeps all that holds of a balanced execution. -/
theorem keeps : Keeps w Balanced where
  begins h hterminated := by
    refine .of_machine h.upright (h.balanced fun fault hfault => ?_) nofun
      fun _ => nofun
    rw [isTerminated, hfault] at hterminated
    cases hterminated
  step s h hunfaulted := h.step hunfaulted s
  pauses line h hcontrol :=
    .of_machine h.upright (h.balanced fun fault hfault => nomatch hcontrol.symm.trans hfault) nofun
      fun _ => nofun

/-- When a balanced execution is done, nothing is left over. -/
theorem ended (h : e.Balanced) (hdone : e.control = .done) : e.machine.Ended := by
  have hbalanced := h.balanced fun fault hfault => nomatch hdone.symm.trans hfault
  have hregular := hbalanced.step h.upright.stacked h.upright.carries
  rw [h.finished hdone] at hregular
  exact hregular.2

/-- No step of a balanced execution is a breakdown of the machine. -/
theorem kind_of_step (h : e.Balanced) (hunfaulted : e.IsUnfaulted) {fault : Fault}
    (hstep : e.step w s = (some (.faulted fault), e', s')) :
    fault.cause.kind ≠ .systemError := by
  have hbalanced := h.step hunfaulted (w := w) s
  rw [hstep] at hbalanced
  exact hbalanced.faulted fault (control_step hstep)

/-- No stretch of a balanced execution ends with a breakdown of the machine. -/
theorem kind_of_resume (h : e.Balanced) {fault : Fault}
    (hresume : e.resume w fuel s = some (.faulted fault, e', s')) :
    fault.cause.kind ≠ .systemError :=
  (keeps.resume h hresume).faulted fault (control_resume hresume)

end Balanced

/-! ## Executions of programs -/

/-- An execution starts balanced. -/
theorem balanced_start {code : Code} {maxDepth : Nat} {traced : Bool} (hproper : code.Proper)
    (hmodule : code.isModule = true) (hdepth : 1 ≤ maxDepth) :
    (start code maxDepth traced).Balanced :=
  .of_machine (Machine.upright_start hproper hmodule hdepth) (Machine.balanced_start hproper) nofun
    fun _ => nofun

/-- The machine does not break down. In the code of a program and of its functions, no jump leads
    past the end, and every `iterNext` is that of a loop over items. In all states that an execution
    of it can be driven to, the last frame and no other runs the code of the script, and there are
    at most as many frames as there may be. As long as no instruction is run after a fault, no fault
    is a breakdown of the machine, every `line` instruction finds no operands and as many open loops
    as are around it, and nothing is left over when the run is done. -/
theorem never_breaks_down {limit : Nat} {source : String} {program : Program} {code : Code}
    {maxDepth : Nat} (hparse : Program.parse limit source = .ok program)
    (hcompile : program.compile = .ok code) (hdepth : 1 ≤ maxDepth) (w : Watcher σ) (s₀ : σ)
    (traced : Bool) :
    (∀ inner, code.Includes inner →
      (∀ instr ∈ inner.instrs, ∀ target ∈ instr.targets, target ≤ inner.instrs.length) ∧
      ∀ i exit, inner.instrs[i]? = some (.iterNext exit) →
        ∃ opening last, i = opening + 3 ∧ exit = last + 1 ∧ inner.LoopAt opening last) ∧
    (∀ e s, Driven w (fun _ => True) (start code maxDepth traced) s₀ e s →
      (∃ inner bottom, e.machine.frames = inner ++ [bottom] ∧ bottom.code.isModule = true ∧
        ∀ frame ∈ inner, frame.code.isModule = false) ∧
      1 ≤ e.machine.frames.length ∧ e.machine.frames.length ≤ maxDepth) ∧
    ∀ e s, Driven w IsUnfaulted (start code maxDepth traced) s₀ e s →
      (∀ fault e' s', e.IsUnfaulted → e.step w s = (some (.faulted fault), e', s') →
        fault.cause.kind ≠ .systemError) ∧
      (∀ fuel fault e' s', e.resume w fuel s = some (.faulted fault, e', s') →
        fault.cause.kind ≠ .systemError) ∧
      e.machine.Marked ∧ (e.control = .done → e.machine.Ended) := by
  have hlegal := Program.isLegal_of_parse hparse hcompile
  obtain ⟨-, rfl⟩ := Program.compile_eq_ok_iff.1 hcompile
  have hproper : program.emit.Proper := ⟨program.guarded_emit, program.sound_emit hlegal⟩
  have hmodule : program.emit.isModule = true := rfl
  refine ⟨fun inner hinner => ?_, fun e s hdriven => ?_, fun e s hdriven => ?_⟩
  · obtain ⟨-, hbounded, -, -, hloop, -, -⟩ := hinner.sound hproper.sound
    exact ⟨fun instr hinstr target htarget => hbounded hinstr htarget,
      fun i exit hnext => hloop hnext⟩
  -- The shape of the stack of frames holds however the execution is driven.
  · have hupright : e.machine.Upright := hdriven.machine (fun _ hm => hm.step)
      (Machine.upright_start hproper hmodule hdepth)
    have hroom : e.machine.maxDepth = maxDepth := hdriven.machine
      (J := fun m => m.maxDepth = maxDepth) (fun m hm => (Machine.maxDepth_step m).trans hm) rfl
    obtain ⟨inner, bottom, hframes, hrest⟩ := hupright.stacked.exists_append
    refine ⟨⟨inner, bottom, hframes, hrest⟩, ?_, hroom ▸ hupright.room⟩
    rw [hframes, List.length_append]
    exact Nat.le_add_left 1 _
  -- The balance of the heights holds only as long as no step is taken past a fault.
  · have hbalanced : e.Balanced := Balanced.keeps.driven (fun s he hunfaulted =>
      he.step hunfaulted s) (balanced_start hproper hmodule hdepth) hdriven
    exact ⟨fun fault e' s' hunfaulted => hbalanced.kind_of_step hunfaulted,
      fun fuel fault e' s' => hbalanced.kind_of_resume, hbalanced.marked, hbalanced.ended⟩

/-- The watcher that accepts every line and does not care. -/
def heedless : Watcher Unit := ⟨fun _ s => .ok s, fun _ s => s⟩

/-- A script with a loop over one item. -/
def single : Program := [.forLoop 1 "i" (.str "a") [.pass 1]]

/-- Before the script goes on to look for a second item, the loop over its items is open. -/
theorem never_breaks_down_single :
    Program.parse 20 "for i in 'a' \x7b pass \x7d" = .ok single ∧ ∃ e frame,
      Driven heedless IsUnfaulted (start single.emit 1 false) () e () ∧
        e.machine.frames = [frame] ∧ frame.code.instrs[frame.next]? = some (.line 1) ∧
        frame.stack = [] ∧ frame.loops.length = 1 := by
  have hparse : Program.parse 20 "for i in 'a' \x7b pass \x7d" = .ok single := by cbv
  obtain ⟨-, -, hdriven⟩ := never_breaks_down hparse rfl (Nat.le_refl 1) heedless () false
  have hstart : Driven heedless IsUnfaulted (start single.emit 1 false) () _ () := .start
  have hline := hstart.step (by rintro _ ⟨⟩) rfl
  have hopen := ((hline.step (by rintro _ ⟨⟩) rfl).step (by rintro _ ⟨⟩) rfl).step
    (by rintro _ ⟨⟩) rfl
  have hround := ((hopen.step (by rintro _ ⟨⟩) rfl).step (by rintro _ ⟨⟩) rfl).step
    (by rintro _ ⟨⟩) rfl
  obtain ⟨-, -, hmarked, -⟩ := hdriven _ _ hround
  have hframe := hmarked rfl rfl
  exact ⟨hparse, _, _, hround, rfl, rfl, hframe⟩

/-- A script with a loop over what cannot be gone through. -/
def astray : Program :=
  [.forLoop 1 "i" (.int 5) [.expr 2 (.list [.int 1, .int 1, .ident "i"]), .breakLoop 3]]

/-- The state after a number of instructions, whatever they end with. -/
def trudge (w : Watcher σ) : (count : Nat) → Execution → σ → Execution × σ
  | 0, e, s => (e, s)
  | count + 1, e, s => trudge w count (e.step w s).2.1 (e.step w s).2.2

/-- Single steps drive an execution, whatever they end with. -/
theorem driven_trudge (count : Nat) (h : Driven w (fun _ => True) first s₀ e s) :
    Driven w (fun _ => True) first s₀ (trudge w count e s).1 (trudge w count e s).2 := by
  induction count generalizing e s with
  | zero => exact h
  | succ count ih => exact ih (h.step trivial rfl)

/-- Instructions that are run after a fault can break the machine down. In the script above the
    loop is not open then, so there is no item, a line finds no open loop, and two of three items of
    a list are left over. -/
theorem breaks_down_past_fault :
    Program.parse 20 "for i in 5 \x7b\n[1, 1, i]\nbreak \x7d" = .ok astray ∧
      astray.compile = .ok astray.emit ∧
      (∃ e, Driven heedless (fun _ => True) (start astray.emit 1 false) () e () ∧
        ∃ fault e', e.step heedless () = (some (.faulted fault), e', ()) ∧
          fault.cause.kind = .systemError) ∧
      (∃ e, Driven heedless (fun _ => True) (start astray.emit 1 false) () e () ∧
        ¬ e.machine.Marked) ∧
      ∃ e, Driven heedless (fun _ => True) (start astray.emit 1 false) () e () ∧
        e.control = .done ∧ ¬ e.machine.Ended := by
  have hstart : Driven heedless (fun _ => True) (start astray.emit 1 false) () _ () := .start
  have hdriven := fun count => driven_trudge count hstart
  refine ⟨by cbv, rfl, ⟨_, hdriven 4, _, _, rfl, rfl⟩, ⟨_, hdriven 6, fun hmarked => ?_⟩,
    ⟨_, hdriven 16, rfl, ?_⟩⟩
  · have hloops := (hmarked rfl rfl).2
    cases hloops
  · rintro ⟨frame, hframes, hstack, -⟩
    cases hframes
    cases hstack

end Linewise.Execution
