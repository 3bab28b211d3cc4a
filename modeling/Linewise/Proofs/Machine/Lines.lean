import Linewise.Proofs.Code.Lines
import Linewise.Proofs.Machine.Soundness

/-!
# The lines that a machine is on

Every frame of a run is on the line that owns what it runs, if the lines of the program ascend. A
machine with the code of such a program keeps each of its frames in order, a caller at the call that
it waits for (`Machine.Lined`), and the rest follows from that in all states that a run comes to
(`Execution.Visits`):

* the instruction that the innermost frame is about to run is owned by the line that the frame is
  on, and so is the call that any other frame waits for;
* a fault has the line that owns the instruction that failed;
* a run that is suspended before a line has just reached it.

What else is kept of an execution does not depend on its lines (`Execution.Intact`).
-/

namespace Linewise

namespace Frame

/-- At an address of its code, a frame is on the line that it should be on. -/
def LinedAt (program : Program) (frame : Frame) (i : Nat) : Prop :=
  ∀ owners, program.Table frame.code owners → frame.code.Lined owners i frame.line

/-- The instruction at an address of the code of a frame is owned by the line that the frame is on
    and by no other. -/
def OwnsAt (program : Program) (frame : Frame) (i : Nat) : Prop :=
  ∀ line, program.Owns frame.code i line ↔ line = frame.line

/-- A frame waits for the value of a call, at a place where it is on the line that it should be
    on. -/
def Calls (program : Program) (frame : Frame) : Prop :=
  ∃ i argc, frame.next = i + 1 ∧ frame.code.instrs[i]? = some (.call argc) ∧
    frame.LinedAt program i

variable {program : Program} {frame : Frame} {i : Nat}

/-- A frame on its line is on the right one wherever its instruction leads. -/
theorem LinedAt.next {instr : Instr} {frame' : Frame} (h : frame.LinedAt program i)
    (hinstr : frame.code.instrs[i]? = some instr) (hcode : frame'.code = frame.code)
    (hnext : frame'.next ∈ instr.successors i) (hline : frame'.line = instr.lineAfter frame.line) :
    frame'.LinedAt program frame'.next := by
  intro owners howners
  rw [hcode] at howners ⊢
  rw [hline]
  exact (h owners howners).next hinstr hnext

/-- Where some line owns the instruction it is the one that the frame is on. -/
theorem LinedAt.ownsAt (h : frame.LinedAt program i)
    (hsome : ∃ line, program.Owns frame.code i line) :
    frame.OwnsAt program i := by
  have hunique : ∀ line, program.Owns frame.code i line → line = frame.line := by
    rintro line ⟨owners, htable, howner⟩
    exact (h owners htable).owner howner
  obtain ⟨line, hline⟩ := hsome
  obtain rfl := hunique line hline
  exact fun line' => ⟨hunique line', fun heq => heq ▸ hline⟩

/-- A frame that gets the value that it waits for goes on in order. -/
theorem Calls.push (h : frame.Calls program) (v : Value Code) :
    (frame.push v).LinedAt program (frame.push v).next := by
  obtain ⟨i, argc, hnext, hinstr, hlined⟩ := h
  exact hlined.next hinstr rfl (List.mem_singleton.2 hnext) rfl

end Frame

namespace Machine

/-- The innermost frame of a machine is on the line that it should be on, and every other one waits
    for the value of a call. -/
structure Lined (program : Program) (m : Machine) : Prop where
  innermost : ∀ {frame callers}, m.frames = frame :: callers → frame.LinedAt program frame.next
  callers : ∀ {frame callers}, m.frames = frame :: callers →
    ∀ caller ∈ callers, caller.Calls program

variable {program : Program} {m m' : Machine} {frame : Frame} {callers : List Frame}

theorem lined_mk {globals : Bindings (Value Code)} {maxDepth : Nat}
    (hframe : frame.LinedAt program frame.next)
    (hcallers : ∀ caller ∈ callers, caller.Calls program) :
    Machine.Lined program ⟨frame :: callers, globals, maxDepth⟩ :=
  ⟨fun h => by cases h; exact hframe, fun h => by cases h; exact hcallers⟩

/-- A machine starts with its lines in order: its only frame is at the entry of the program. -/
theorem lined_start (hascends : Ascending program) (maxDepth : Nat) :
    (Machine.start program.emit maxDepth).Lined program :=
  lined_mk (fun _ htable => htable.lined hascends) nofun

/-- All frames stay on the lines that they should be on, whatever the machine runs. -/
theorem Lined.step (h : m.Lined program) (hascends : Ascending program) :
    m.step.machine.Lined program := by
  have hsteps := step_steps m
  generalize m.step = progress at hsteps
  cases hsteps with
  | empty | ends | falls => exact h
  | @executes frame callers instr _ hframes hinstr hexec =>
    have hframe := h.innermost hframes
    have hcallers := h.callers hframes
    cases hexec with
    | stays hcode hplace hline =>
      have hnext := Instr.next_mem_successors rfl hplace
      exact lined_mk (hframe.next hinstr hcode hnext hline) hcallers
    | prints hplace hcall =>
      obtain ⟨argc, rfl⟩ := hcall
      exact lined_mk (hframe.next hinstr rfl (List.mem_singleton_self _) rfl) hcallers
    | reaches hline =>
      subst hline
      exact lined_mk (hframe.next hinstr rfl (List.mem_singleton_self _) rfl) hcallers
    | enters _ _ _ hcall =>
      obtain ⟨argc, rfl⟩ := hcall
      -- The caller is kept at the instruction behind its call, so its line is found one in front of
      -- it.
      have hcaller : ∀ stack, Frame.Calls program { frame with next := frame.next + 1, stack } :=
        fun _ => ⟨frame.next, argc, rfl, hinstr, hframe⟩
      exact lined_mk (fun _ htable => htable.lined hascends)
        (List.forall_mem_cons.2 ⟨hcaller _, hcallers⟩)
    | leaves hcallers' =>
      subst hcallers'
      obtain ⟨hcaller, houter⟩ := List.forall_mem_cons.1 hcallers
      exact lined_mk (hcaller.push _) houter
    | finishes => exact ⟨nofun, nofun⟩
    | fails _ hfail =>
      exact lined_mk (hframe.next hinstr rfl (Instr.succ_mem_successors hfail)
        (Instr.lineAfter_of_mayFail hfail).symm) hcallers

/-- What is known of a machine that has just failed: the instruction that did so is owned by the
    line that the innermost frame is on, and the fault has that line. -/
def FailedOn (program : Program) (fault : Fault) (m : Machine) : Prop :=
  ∃ frame callers i, m.frames = frame :: callers ∧ frame.next = i + 1 ∧
    frame.OwnsAt program i ∧ fault.line = some frame.line

/-- A fault has the line that owns the instruction that failed. -/
theorem Lined.failedOn {fault : Fault} (h : m.Lined program) (hlegal : Legal .outermost program)
    (hascends : Ascending program) (hcodes : ∀ frame ∈ m.frames, program.HasCode frame.code)
    (hbalanced : m.Balanced)
    (hstep : m.step = .faulted fault m') : m'.FailedOn program fault := by
  have hsteps := step_steps m
  rw [hstep] at hsteps
  cases hsteps with
  | falls hframes hinstr hmodule =>
    obtain ⟨hend, -⟩ := (hbalanced.innermost hframes).finished hinstr
    exact absurd (hmodule.symm.trans hend) Bool.false_ne_true
  | @executes frame callers instr _ hframes hinstr hexec =>
    generalize hprogress : Progress.faulted fault m' = progress at hexec
    cases hexec with
    | @fails stack cause hcause hfail =>
      cases hprogress
      -- A return that finds its value does not fail.
      have hleave : instr ≠ .leave := by
        rintro rfl
        obtain ⟨hfed, -⟩ := (hbalanced.innermost hframes).exits hinstr
        rcases (hcause ⟨hfed.pops_le, by rintro _ ⟨⟩⟩).2 with hiter | ⟨_, hexits⟩
        · cases hiter
        · cases hexits
      have hcode := hcodes frame (hframes ▸ List.mem_cons_self)
      have howns := (h.innermost hframes).ownsAt
        (program.exists_owns_of_mayFail hlegal hcode hinstr hfail hleave)
      refine ⟨_, callers, frame.next, rfl, rfl, howns, ?_⟩
      have hline : frame.line ≠ 0 := ((howns frame.line).2 rfl).ne_zero hascends
      exact if_neg hline
    | _ => cases hprogress

/-- What is known of a machine that has just reached a line: the instruction behind the innermost
    frame is that of the line, and the frame is on it. -/
def PausedOn (line : Line) (m : Machine) : Prop :=
  ∃ frame callers i, m.frames = frame :: callers ∧ frame.next = i + 1 ∧
    frame.code.instrs[i]? = some (.line line) ∧ frame.line = line

/-- A step that reaches a line leaves the innermost frame on it, right behind its `line`
    instruction. -/
theorem pausedOn_of_step {line : Line} (hstep : m.step = .atLine line m') : m'.PausedOn line := by
  have hsteps := step_steps m
  rw [hstep] at hsteps
  cases hsteps with
  | @executes frame callers _ _ _ hinstr hexec =>
    generalize hprogress : Progress.atLine line m' = progress at hexec
    cases hexec with
    | reaches hline =>
      cases hprogress
      subst hline
      exact ⟨_, callers, frame.next, rfl, rfl, hinstr, rfl⟩
    | _ => cases hprogress

end Machine

/-! ## Runs -/

namespace Execution

variable {σ : Type}

/-- The states that a run comes to, instruction by instruction: a stretch begins, unless the run is
    over, instructions are run, and the run is suspended when the watcher has accepted a line. -/
inductive Visits (w : Watcher σ) (first : Execution) (s₀ : σ) : Execution → σ → Prop
  | start : Visits w first s₀ first s₀
  | begins {e : Execution} {s : σ} (h : Visits w first s₀ e s) (hgoes : e.isTerminated = false) :
      Visits w first s₀ { e with control := .running } s
  | step {e e' : Execution} {s s' : σ} {ending : Option Outcome} (h : Visits w first s₀ e s)
      (hrunning : e.control = .running) (hstep : e.step w s = (ending, e', s')) :
      Visits w first s₀ e' s'
  | pauses {e e' : Execution} {s s' : σ} {line : Line} (h : Visits w first s₀ e s)
      (hrunning : e.control = .running) (hstep : e.step w s = (some (.paused line), e', s')) :
      Visits w first s₀ { e' with control := .paused line } s'

variable {w : Watcher σ} {I : Execution → Prop} {e e' first : Execution} {s s' s₀ : σ}
  {outcome : Outcome} {fuel : Nat} {program : Program}

/-- What all parts of a stretch keep holds of all states of a run. -/
theorem Keeps.visits (hI : Keeps w I) (hfirst : I first) (h : Visits w first s₀ e s) : I e := by
  induction h with
  | start => exact hfirst
  | begins _ hgoes ih => exact hI.begins ih hgoes
  | @step e _ s _ _ _ hrunning hstep ih =>
    have hkept := hI.step s ih fun fault hfault => nomatch hfault.symm.trans hrunning
    rwa [hstep] at hkept
  | @pauses e _ s _ line _ hrunning hstep ih =>
    have hkept := hI.step s ih fun fault hfault => nomatch hfault.symm.trans hrunning
    rw [hstep] at hkept
    exact hI.pauses line hkept ((control_step hstep).trans hrunning)

/-- The states that the stretches of a run lead to are among those that it comes to. -/
theorem Visits.steps (h : Visits w first s₀ e s) (hrunning : e.control = .running)
    (hsteps : e.steps w fuel s = some (outcome, e', s')) : Visits w first s₀ e' s' := by
  induction fuel generalizing e s with
  | zero => cases hsteps
  | succ fuel ih =>
    rw [Execution.steps] at hsteps
    split at hsteps
    next hstep => exact ih (h.step hrunning hstep) ((control_step hstep).trans hrunning) hsteps
    next hstep =>
      cases hsteps
      exact h.pauses hrunning hstep
    next hstep =>
      cases hsteps
      exact h.step hrunning hstep

/-- A stretch leads to a state that the run comes to. -/
theorem Visits.resume (h : Visits w first s₀ e s)
    (hresume : e.resume w fuel s = some (outcome, e', s')) : Visits w first s₀ e' s' := by
  rw [Execution.resume] at hresume
  split at hresume
  · cases hresume
    exact h
  · cases hresume
    exact h
  next hcontrol =>
    exact (h.begins (by rw [isTerminated, hcontrol])).steps rfl hresume
  next hcontrol =>
    exact (h.begins (by rw [isTerminated, hcontrol])).steps rfl hresume

/-- A run that was going on has a fault when the step ended with it. -/
theorem ending_of_faulted {ending : Option Outcome} {fault : Fault}
    (hrunning : e.control = .running) (hstep : e.step w s = (ending, e', s'))
    (hfault : e'.control = .faulted fault) :
    ending = some (.faulted fault) := by
  have hcontrol := (control_step hstep).symm.trans hfault
  split at hcontrol
  · cases hcontrol
  · cases hcontrol
    rfl
  · cases hcontrol.symm.trans hrunning

/-- Whatever a step of an execution ends with, its machine has made a step. -/
theorem machine_of_step {ending : Option Outcome} (hstep : e.step w s = (ending, e', s')) :
    e'.machine = e.machine.step.machine := by
  have hmachine := step_machine w e s
  rwa [hstep] at hmachine

/-- A step that ends with a fault is one of the machine. -/
theorem machine_step_of_faulted {fault : Fault}
    (hstep : e.step w s = (some (.faulted fault), e', s')) :
    e.machine.step = .faulted fault e'.machine := by
  rw [Execution.step] at hstep
  split at hstep
  · cases hstep
  · cases hstep
  · split at hstep
    · split at hstep <;> cases hstep
    · cases hstep
  · cases hstep
  next hprogress =>
    cases hstep
    exact hprogress

/-- A step that ends with a pause is one of the machine. -/
theorem machine_step_of_paused {line : Line}
    (hstep : e.step w s = (some (.paused line), e', s')) :
    e.machine.step = .atLine line e'.machine := by
  rw [Execution.step] at hstep
  split at hstep
  · cases hstep
  · cases hstep
  next hprogress =>
    split at hstep
    · split at hstep <;> cases hstep
      exact hprogress
    · cases hstep
  · cases hstep
  · cases hstep

/-- What is kept of an execution of a program, whatever watches it and however many frames there
    may be. -/
structure Intact (program : Program) (e : Execution) : Prop where
  within : e.machine.Within fun code => code.Guarded ∧ program.HasCode code
  stacked : Frame.Stacked e.machine.frames
  carries : e.machine.Carries Code.Callable
  balanced : e.isTerminated = false → e.machine.Balanced

namespace Intact

/-- A step keeps an execution intact, though it need not be balanced any more when it has ended. -/
theorem step (h : e.Intact program) (s : σ) : (e.step w s).2.1.Intact program := by
  have hmachine := step_machine w e s
  refine ⟨?_, ?_, ?_, ?_⟩
  · rw [hmachine]
    exact h.within.step program.closed_hasCode
  · rw [hmachine]
    exact Machine.stacked_step h.stacked h.carries
  · rw [hmachine]
    exact Machine.carries_step h.stacked h.carries
  · have hregular := fun hgoes => (h.balanced hgoes).step h.stacked h.carries
    rw [Execution.step]
    generalize e.machine.step = progress at hregular
    cases progress with
    | next m | printed text m => exact hregular
    | atLine line m =>
      dsimp only
      split
      · split <;> exact hregular
      · exact hregular
    | finished m | faulted fault m => rintro ⟨⟩

/-- A stretch keeps an execution intact. -/
theorem keeps : Keeps w (Intact program) where
  begins h hgoes := ⟨h.within, h.stacked, h.carries, fun _ => h.balanced hgoes⟩
  step s h _ := h.step s
  pauses line h hcontrol :=
    ⟨h.within, h.stacked, h.carries, fun _ => h.balanced (by rw [isTerminated, hcontrol])⟩

/-- A program that is about to run is intact. -/
theorem start (hlegal : Legal .outermost program) (maxDepth : Nat) (traced : Bool) :
    (Execution.start program.emit maxDepth traced).Intact program := by
  have hproper : program.emit.Proper := ⟨program.guarded_emit, program.sound_emit hlegal⟩
  exact ⟨program.within_start maxDepth, ⟨hproper, rfl⟩,
    ⟨List.forall_mem_singleton.2 (Frame.carries_enter Bindings.all_empty), Bindings.all_empty⟩,
    fun _ => Machine.balanced_start hproper⟩

end Intact

/-- All states that a run of a legal program comes to are intact. -/
theorem Visits.intact {maxDepth : Nat} {traced : Bool} (hlegal : Legal .outermost program)
    (h : Visits w (Execution.start program.emit maxDepth traced) s₀ e s) : e.Intact program :=
  Intact.keeps.visits (.start hlegal maxDepth traced) h

/-- In all states that a run comes to the frames are on the lines that they should be on. -/
theorem Visits.lined {maxDepth : Nat} {traced : Bool} (hascends : Ascending program)
    (h : Visits w (Execution.start program.emit maxDepth traced) s₀ e s) :
    e.machine.Lined program := by
  have hkeeps : Keeps w fun e => e.machine.Lined program := by
    refine ⟨fun h _ => h, fun {e} s h _ => ?_, fun _ h _ => h⟩
    rw [step_machine]
    exact h.step hascends
  exact hkeeps.visits (Machine.lined_start hascends maxDepth) h

/-- Every instruction runs under the right line. In all states that a run comes to of a program
    whose text has fewer than `2 ^ 32` lines, so that no number stands for two of them, and whatever
    watches the run:

    * the instruction that the innermost frame is about to run is owned by the line that the frame
      is on, unless it only leads the way or is part of the return at the end of a function, and
      every other frame waits for a call that is owned by the line that this frame is on;
    * when the run has ended with a fault, it is the fault of an instruction of the innermost frame
      that is owned by the line that the frame is on, and has that line;
    * when the run is suspended before a line, the innermost frame is on that line and has just run
      the `line` instruction for it. -/
theorem Visits.owned {limit : Nat} {source : String} {code : Code} {maxDepth : Nat} {traced : Bool}
    (hparse : Program.parse limit source = .ok program) (hcompile : program.compile = .ok code)
    (hlines : Syntax.lineCount source < UInt32.size)
    (h : Visits w (Execution.start code maxDepth traced) s₀ e s) :
    (∀ frame callers, e.machine.frames = frame :: callers →
      (∀ instr, frame.code.instrs[frame.next]? = some instr → instr.isRouting = false →
        ¬ frame.code.Epilogue frame.next → frame.OwnsAt program frame.next) ∧
      ∀ caller ∈ callers, ∃ i argc, caller.next = i + 1 ∧
        caller.code.instrs[i]? = some (.call argc) ∧ caller.OwnsAt program i) ∧
    (∀ fault, e.control = .faulted fault → e.machine.FailedOn program fault) ∧
    ∀ line, e.control = .paused line → e.machine.PausedOn line := by
  have hlegal := Program.isLegal_of_parse hparse hcompile
  have hascends := Program.ascending_of_parse hparse hlines
  obtain ⟨-, rfl⟩ := Program.compile_eq_ok_iff.1 hcompile
  have hlined := h.lined hascends
  have hwithin := (h.intact hlegal).within
  refine ⟨fun frame callers hframes => ⟨fun instr hinstr hrouting hend => ?_, fun caller hcaller =>
    ?_⟩, fun fault hfault => ?_, fun line hline => ?_⟩
  · have hcode := (hwithin.frames frame (hframes ▸ List.mem_cons_self)).code.2
    exact (hlined.innermost hframes).ownsAt
      (program.exists_owns hlegal hcode hinstr hrouting hend)
  · obtain ⟨i, argc, hnext, hcall, hat⟩ := hlined.callers hframes caller hcaller
    have hcode := (hwithin.frames caller (hframes ▸ List.mem_cons_of_mem _ hcaller)).code.2
    exact ⟨i, argc, hnext, hcall, hat.ownsAt
      (program.exists_owns_of_mayFail hlegal hcode hcall rfl nofun)⟩
  · cases h with
    | start | begins | pauses => cases hfault
    | step h hrunning hstep =>
      -- The lines are in order in the state before the fault, where the failed instruction still is
      -- next.
      obtain rfl := ending_of_faulted hrunning hstep hfault
      have hintact := h.intact hlegal
      exact (h.lined hascends).failedOn hlegal hascends
        (fun frame hframe => (hintact.within.frames frame hframe).code.2)
        (hintact.balanced (by rw [isTerminated, hrunning])) (machine_step_of_faulted hstep)
  · cases h with
    | start | begins => cases hline
    | step h hrunning hstep =>
      have hcontrol := (control_step hstep).symm.trans hline
      split at hcontrol
      · cases hcontrol
      · cases hcontrol
      · cases hcontrol.symm.trans hrunning
    | pauses h _ hstep =>
      cases hline
      exact (Machine.pausedOn_of_step (machine_step_of_paused hstep) :)

/-- A script that fails in a function. -/
def mishap : Program :=
  [.define 1 "f" [] [.expr 2 (.call (.str "a") [])] 0, .expr 3 (.call (.ident "f") [])]

/-- When the script has failed on the line of the function, its own frame still waits for the call
    on the line of that. -/
theorem Visits.owned_mishap :
    Program.parse 20 "def f() \x7b\n'a'() \x7d\nf()" = .ok mishap ∧ ∃ e frame caller fault,
      Visits heedless (.start mishap.emit 5 false) () e () ∧ e.control = .faulted fault ∧
        e.machine.frames = [frame, caller] ∧ fault.line = some 2 ∧
        e.machine.FailedOn mishap fault ∧ caller.line = 3 ∧ ∃ i, caller.OwnsAt mishap i := by
  have hparse : Program.parse 20 "def f() \x7b\n'a'() \x7d\nf()" = .ok mishap := by cbv
  have hcompile : mishap.compile = .ok mishap.emit := rfl
  obtain ⟨fault, e, hresume, hcontrol, frame, caller, hframes, hline, hcaller⟩ : ∃ fault e,
      (Execution.start mishap.emit 5 false).resume heedless 20 () = some (.faulted fault, e, ()) ∧
        e.control = .faulted fault ∧ ∃ frame caller, e.machine.frames = [frame, caller] ∧
          fault.line = some 2 ∧ caller.line = 3 :=
    ⟨_, _, rfl, rfl, _, _, rfl, rfl, rfl⟩
  have hvisits := Visits.start.resume hresume
  obtain ⟨hframe, hfaulted, -⟩ := Visits.owned hparse hcompile (by decide) hvisits
  obtain ⟨-, hcalls⟩ := hframe frame [caller] hframes
  obtain ⟨i, -, -, -, howns⟩ := hcalls caller (List.mem_singleton_self _)
  exact ⟨hparse, e, frame, caller, fault, hvisits, hcontrol, hframes, hline,
    hfaulted fault hcontrol, hcaller, i, howns⟩

end Execution

end Linewise
