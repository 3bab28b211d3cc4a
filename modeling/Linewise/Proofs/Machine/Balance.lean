import Linewise.Proofs.Code.Sound
import Linewise.Proofs.Machine.Termination

/-!
# Balance of a machine

The frames of a machine with the code of a program stand as calls and returns leave them:

* the last one runs the code of the script, all others run those of functions, and there are no
  more of them than there may be (`Machine.Upright`), whatever the machine runs;
* every frame is at a safe place, a caller as soon as it gets the value that it waits for, until
  an instruction faults (`Machine.Balanced`).

So a balanced machine does not break down, and when it has finished nothing is left over.
-/

namespace Linewise

/-- The code is that of a program or of one of its functions, as far as its execution goes. -/
structure Code.Proper (code : Code) : Prop where
  guarded : code.Guarded
  sound : code.Sound

/-- The code is that of a function of a program. -/
structure Code.Callable (code : Code) : Prop extends code.Proper where
  isModule : code.isModule = false

/-- All functions that the code of a program makes are functions of the program. -/
theorem Code.Proper.makes {code : Code} (h : code.Proper) : code.Makes Code.Callable := by
  obtain ⟨⟨-, hconst, hguarded⟩, -, -, -, -, -, hnamed, hsound⟩ := h
  refine ⟨fun hv => ?_, fun hinner => ⟨⟨hguarded hinner, hsound hinner⟩, hnamed hinner⟩⟩
  rw [Value.Within, hconst hv]
  rintro _ ⟨⟩

/-! ## Who calls whom -/

/-- The last of the frames runs the code of a script, and all others those of functions. -/
def Frame.Stacked : List Frame → Prop
  | [] => False
  | [bottom] => bottom.code.Proper ∧ bottom.code.isModule = true
  | frame :: caller :: outer => frame.code.Callable ∧ Stacked (caller :: outer)

namespace Frame

variable {frame frame' : Frame} {callers frames : List Frame}

/-- Frames stay stacked as long as each runs the code that it ran. -/
theorem Stacked.replace (h : Stacked (frame :: callers)) (hcode : frame'.code = frame.code) :
    Stacked (frame' :: callers) := by
  cases callers with
  | nil => exact ⟨hcode ▸ h.1, hcode ▸ h.2⟩
  | cons caller outer => exact ⟨hcode ▸ h.1, h.2⟩

theorem Stacked.proper (h : Stacked frames) : ∀ frame ∈ frames, frame.code.Proper := by
  induction frames with
  | nil => exact nofun
  | cons frame callers ih =>
    cases callers with
    | nil => exact List.forall_mem_singleton.2 h.1
    | cons caller outer => exact List.forall_mem_cons.2 ⟨h.1.toProper, ih h.2⟩

/-- A frame with the code of a script has not been called. -/
theorem Stacked.callers_eq_nil (h : Stacked (frame :: callers))
    (hmodule : frame.code.isModule = true) : callers = [] := by
  cases callers with
  | nil => rfl
  | cons caller outer => exact absurd (h.1.isModule.symm.trans hmodule) Bool.false_ne_true

/-- The code of a script has no return. -/
theorem Stacked.leave_notMem (h : Stacked [frame]) : .leave ∉ frame.code.instrs := by
  intro hleave
  obtain ⟨-, -, hnone, -, -, -, -⟩ := h.1.sound
  exact absurd ((hnone hleave).symm.trans h.2) Bool.false_ne_true

/-- The frame of the script is the last one, below those of functions. -/
theorem Stacked.exists_append (h : Stacked frames) :
    ∃ inner bottom, frames = inner ++ [bottom] ∧ bottom.code.isModule = true ∧
      ∀ frame ∈ inner, frame.code.isModule = false := by
  induction frames with
  | nil => cases h
  | cons frame callers ih =>
    cases callers with
    | nil => exact ⟨[], frame, rfl, h.2, nofun⟩
    | cons caller outer =>
      obtain ⟨inner, bottom, heq, hbottom, hinner⟩ := ih h.2
      refine ⟨frame :: inner, bottom, by rw [heq, List.cons_append], hbottom, ?_⟩
      exact List.forall_mem_cons.2 ⟨h.1.isModule, hinner⟩

end Frame

namespace Machine

variable {m m' : Machine} {frame : Frame} {callers : List Frame}

/-- The frames of a machine stand as calls leave them, and the values hold only functions of the
    program. -/
structure Upright (m : Machine) : Prop where
  stacked : Frame.Stacked m.frames
  room : m.frames.length ≤ m.maxDepth
  carries : m.Carries Code.Callable

/-- A machine starts upright if it may have a frame at all. -/
theorem upright_start {code : Code} {maxDepth : Nat} (hproper : code.Proper)
    (hmodule : code.isModule = true) (hdepth : 1 ≤ maxDepth) :
    (Machine.start code maxDepth).Upright :=
  ⟨⟨hproper, hmodule⟩, hdepth,
    List.forall_mem_singleton.2 (Frame.carries_enter Bindings.all_empty), Bindings.all_empty⟩

/-- Frames stay as calls leave them, whatever the machine runs. -/
theorem stacked_step (hstacked : Frame.Stacked m.frames) (hcarries : m.Carries Code.Callable) :
    Frame.Stacked m.step.machine.frames := by
  have hsteps := step_steps m
  generalize m.step = progress at hsteps
  cases hsteps with
  | empty | ends | falls => exact hstacked
  | @executes frame callers instr _ hframes hinstr hexec =>
    rw [hframes] at hstacked
    cases hexec with
    | stays hcode => exact hstacked.replace hcode
    | prints | reaches | fails => exact hstacked.replace rfl
    | enters hcallee =>
      have hframe := hcarries.frames frame (hframes ▸ List.mem_cons_self)
      exact ⟨Value.within_function.1 (hframe.stack _ hcallee), hstacked.replace rfl⟩
    | leaves hcallers =>
      subst hcallers
      exact hstacked.2.replace rfl
    | finishes hleave hcallers =>
      subst hleave hcallers
      exact absurd (List.mem_of_getElem? hinstr) hstacked.leave_notMem

/-- A step makes no values but those that its codes may make. -/
theorem carries_step (hstacked : Frame.Stacked m.frames) (hcarries : m.Carries Code.Callable) :
    m.step.machine.Carries Code.Callable :=
  hcarries.step fun frame hframe => (hstacked.proper frame hframe).makes

/-- There are no more frames than there may be, whatever the machine runs. -/
theorem room_step (hroom : m.frames.length ≤ m.maxDepth) :
    m.step.machine.frames.length ≤ m.step.machine.maxDepth := by
  have hsteps := step_steps m
  generalize m.step = progress at hsteps
  cases hsteps with
  | empty | ends | falls => exact hroom
  | executes hframes _ hexec =>
    rw [hframes] at hroom
    cases hexec with
    | stays | prints | reaches | fails => exact hroom
    | enters _ _ hfree => exact hfree
    | leaves hcallers =>
      subst hcallers
      exact Nat.le_of_succ_le hroom
    | finishes => exact Nat.zero_le _

/-- A machine stays upright, whatever it runs. -/
theorem Upright.step (h : m.Upright) : m.step.machine.Upright :=
  ⟨stacked_step h.stacked h.carries, room_step h.room, carries_step h.stacked h.carries⟩

/-- No step changes how many frames there may be. -/
theorem maxDepth_step (m : Machine) : m.step.machine.maxDepth = m.maxDepth := by
  have hsteps := step_steps m
  generalize m.step = progress at hsteps
  cases hsteps with
  | empty | ends | falls => rfl
  | executes _ _ hexec => cases hexec <;> rfl

/-! ## Where the frames are -/

/-- The innermost frame is at a safe place, and so is every caller as soon as it gets a value. -/
structure Balanced (m : Machine) : Prop where
  innermost : ∀ {frame callers}, m.frames = frame :: callers → frame.code.Safe frame.place
  callers : ∀ {frame callers}, m.frames = frame :: callers →
    ∀ caller ∈ callers, ∀ v, caller.code.Safe (caller.push v).place

/-- If the innermost frame is about to reach a line, then it has no operands, and its open loops
    are those around the line. -/
def Marked (m : Machine) : Prop :=
  ∀ {frame callers line}, m.frames = frame :: callers →
    frame.code.instrs[frame.next]? = some (.line line) →
      frame.stack = [] ∧ frame.loops.length = frame.code.loopsAround frame.next

/-- The machine has finished a script, and nothing is left over. -/
def Ended (m : Machine) : Prop :=
  ∃ frame, m.frames = [frame] ∧ frame.stack = [] ∧ frame.loops = []

theorem balanced_mk {globals : Bindings (Value Code)} {maxDepth : Nat}
    (hframe : frame.code.Safe frame.place)
    (hcallers : ∀ caller ∈ callers, ∀ v, caller.code.Safe (caller.push v).place) :
    Machine.Balanced ⟨frame :: callers, globals, maxDepth⟩ :=
  ⟨fun h => by cases h; exact hframe, fun h => by cases h; exact hcallers⟩

theorem balanced_start {code : Code} {maxDepth : Nat} (h : code.Proper) :
    (Machine.start code maxDepth).Balanced := by
  obtain ⟨hsafe, -⟩ := h.sound
  exact balanced_mk hsafe nofun

/-- A line is only reached with no operands, and with the loops around it alone. -/
theorem Balanced.marked (h : m.Balanced) : m.Marked := by
  intro frame callers line hframes hline
  obtain ⟨hheight, hdepth⟩ := (h.innermost hframes).marked line hline
  exact ⟨List.eq_nil_of_length_eq_zero hheight, hdepth⟩

/-- What a step of a balanced machine comes to. -/
def Progress.Regular (m : Machine) : Progress → Prop
  | next m' | printed _ m' | atLine _ m' => m'.Balanced
  | finished m' => m' = m ∧ m.Ended
  | faulted fault m' => fault.cause.kind ≠ .systemError ∧ m'.Marked

/-- After a fault that is not a breakdown, the frame lacks its result for a safe place, or a loop
    that it is about to jump into. -/
theorem marked_of_fails {globals : Bindings (Value Code)} {maxDepth : Nat} {instr : Instr}
    {stack : List (Value Code)} (hcode : frame.code.Sound)
    (hinstr : frame.code.instrs[frame.next]? = some instr)
    (hexits : ∀ q ∈ instr.exits (Frame.place { frame with next := frame.next + 1 }),
      frame.code.Safe q)
    (h : instr = .iterStart ∨ ∃ results,
      Frame.place { frame with next := frame.next + 1, stack := results ++ stack } ∈
        instr.exits (Frame.place { frame with next := frame.next + 1 })) :
    Machine.Marked
      ⟨{ frame with next := frame.next + 1, stack } :: callers, globals, maxDepth⟩ := by
  rintro _ _ line ⟨⟩ hline
  rcases h with rfl | ⟨results, hplace⟩
  · obtain ⟨-, -, -, hloop, -, -, -⟩ := hcode
    obtain ⟨last, hat⟩ := hloop hinstr
    cases hat.enters.symm.trans hline
  · obtain ⟨hheight, hdepth⟩ := (hexits _ hplace).marked line hline
    have hnil := List.eq_nil_of_length_eq_zero hheight
    exact ⟨(List.append_eq_nil_iff.1 hnil).2, hdepth⟩

/-- A balanced machine does not break down and stays balanced, up to a fault. -/
theorem Balanced.step (h : m.Balanced) (hstacked : Frame.Stacked m.frames)
    (hcarries : m.Carries Code.Callable) : m.step.Regular m := by
  have hsteps := step_steps m
  generalize m.step = progress at hsteps
  cases hsteps with
  | empty hframes =>
    rw [hframes] at hstacked
    cases hstacked
  | @ends frame callers hframes hinstr hmodule =>
    obtain ⟨-, hheight, hdepth⟩ := (h.innermost hframes).finished hinstr
    obtain rfl := (hframes ▸ hstacked : Frame.Stacked (frame :: callers)).callers_eq_nil hmodule
    exact ⟨rfl, frame, hframes, List.eq_nil_of_length_eq_zero hheight,
      List.eq_nil_of_length_eq_zero hdepth⟩
  | falls hframes hinstr hmodule =>
    obtain ⟨hend, -, -⟩ := (h.innermost hframes).finished hinstr
    exact absurd (hmodule.symm.trans hend) Bool.false_ne_true
  | @executes frame callers instr _ hframes hinstr hexec =>
    -- The heights at this instruction are enough for it, and right at each of its exits.
    obtain ⟨hfed, hexits⟩ := (h.innermost hframes).exits hinstr
    have hcallers := h.callers hframes
    have hproper := hstacked.proper frame (hframes ▸ List.mem_cons_self)
    cases hexec with
    | stays hcode hplace =>
      refine balanced_mk ?_ hcallers
      rw [hcode]
      exact hexits _ hplace
    | prints hplace => exact balanced_mk (hexits _ hplace) hcallers
    | reaches hline =>
      subst hline
      exact balanced_mk (hexits _ (List.mem_singleton_self _)) hcallers
    | @enters code _ _ hcallee hplace =>
      have hframe := hcarries.frames frame (hframes ▸ List.mem_cons_self)
      -- A callee is a value of the program, so its code is sound from an empty stack on.
      obtain ⟨hsafe, -⟩ := (Value.within_function.1 (hframe.stack _ hcallee)).sound
      exact balanced_mk hsafe
        (List.forall_mem_cons.2 ⟨fun v => hexits _ (hplace v), hcallers⟩)
    | leaves hcallers' =>
      subst hcallers'
      obtain ⟨hcaller, houter⟩ := List.forall_mem_cons.1 hcallers
      exact balanced_mk (hcaller _) houter
    | finishes hleave hnil =>
      subst hleave hnil
      rw [hframes] at hstacked
      exact absurd (List.mem_of_getElem? hinstr) hstacked.leave_notMem
    | fails hcause =>
      obtain ⟨hkind, hplace⟩ := hcause ⟨hfed.pops_le, hfed.depth_pos⟩
      exact ⟨hkind, marked_of_fails hproper.sound hinstr hexits hplace⟩

end Machine

end Linewise
