import Linewise.Proofs.Code.Marks
import Linewise.Proofs.Machine.Entry

/-!
# Lines shown once

Statements that share a line are meant to be shown together, once: while an activation stays on a
line, the watcher should not be shown that line again, unless a loop on it goes into its next
round. This is so on every line that is not crowded (`Execution.Visits.rechecks`), and not on
others (`Execution.Visits.shows_twice`).

Between two looks at an activation it may call functions, and these may show what they like. So
what is followed here is one frame of the machine, whatever stands on top of it
(`Machine.HasActivation`), as long as the run does not leave it and is not shown another line of it
(`Execution.StaysOn`). Its line cannot change then, and so where it is shown next is settled by its
code alone.
-/

namespace Linewise

namespace Machine

variable {m m' : Machine} {frame : Frame} {callers : List Frame} {code : Code} {line : Line}

/-- All frames of a machine are where their codes can lead to. -/
def OnPath (m : Machine) : Prop := ∀ frame ∈ m.frames, frame.code.Reaches frame.next frame.line

theorem onPath_start (code : Code) (maxDepth : Nat) : (Machine.start code maxDepth).OnPath :=
  List.forall_mem_singleton.2 .enter

/-- Frames go on from where they are, and new ones begin at the beginning. -/
theorem OnPath.step (h : m.OnPath) (hfaults : ∀ fault m', m.step ≠ .faulted fault m') :
    m.step.machine.OnPath := by
  have hsteps := step_steps m
  generalize m.step = progress at hsteps hfaults
  cases hsteps with
  | empty | ends | falls => exact h
  | @executes frame callers instr _ hframes hinstr hexec =>
    rw [OnPath, hframes] at h
    obtain ⟨hframe, hcallers⟩ := List.forall_mem_cons.1 h
    cases hexec with
    | stays hcode hplace hline =>
      refine List.forall_mem_cons.2 ⟨?_, hcallers⟩
      rw [hcode, hline]
      exact hframe.next hinstr rfl hplace
    | prints hplace hcall =>
      obtain ⟨argc, rfl⟩ := hcall
      exact List.forall_mem_cons.2 ⟨hframe.next hinstr rfl hplace, hcallers⟩
    | reaches hline =>
      subst hline
      have hnext := hframe.next (p := ⟨frame.next + 1, 0, 0⟩) hinstr rfl (List.mem_singleton_self _)
      exact List.forall_mem_cons.2 ⟨hnext, hcallers⟩
    | enters _ hplace _ hcall =>
      obtain ⟨argc, rfl⟩ := hcall
      -- The new activation is at its entry, and the caller goes on behind the call when it returns.
      refine List.forall_mem_cons.2 ⟨.enter, List.forall_mem_cons.2 ⟨?_, hcallers⟩⟩
      exact hframe.next hinstr rfl (hplace .none)
    | leaves hcallers' =>
      subst hcallers'
      obtain ⟨hcaller, houter⟩ := List.forall_mem_cons.1 hcallers
      exact List.forall_mem_cons.2 ⟨hcaller, houter⟩
    | finishes => exact nofun
    | fails => exact absurd rfl (hfaults _ _)

/-- An activation of a code that was called from some frames is under way, on a line. -/
def HasActivation (m : Machine) (code : Code) (callers : List Frame) (line : Line) : Prop :=
  ∃ inner frame, m.frames = inner ++ frame :: callers ∧ frame.code = code ∧ frame.line = line

/-- The instruction that shows a line, and what it does to its frame. -/
theorem exists_mark_of_step (hstep : m.step = .atLine line m') : ∃ frame callers,
    m.frames = frame :: callers ∧ frame.code.instrs[frame.next]? = some (.line line) ∧
      m'.frames = { frame with next := frame.next + 1, line := line } :: callers := by
  have hsteps := step_steps m
  rw [hstep] at hsteps
  cases hsteps with
  | @executes frame callers _ _ hframes hinstr hexec =>
    generalize hprogress : Progress.atLine line m' = progress at hexec
    cases hexec with
    | reaches hline =>
      cases hprogress
      subst hline
      exact ⟨frame, callers, hframes, hinstr, rfl⟩
    | _ => cases hprogress

/-- An activation that a step does not leave stays on its line, unless the step shows another line
    of it. -/
theorem HasActivation.step (h : m.HasActivation code callers line)
    (hstays : callers.length < m.step.machine.frames.length)
    (honly : ∀ l m', m.step = .atLine l m' → m.frames.length = callers.length + 1 → l = line) :
    m.step.machine.HasActivation code callers line := by
  obtain ⟨inner, frame, hframes, rfl, rfl⟩ := h
  have hsteps := step_steps m
  generalize hprogress : m.step = progress at hsteps hstays honly
  cases hsteps with
  | empty hempty => exact absurd (hempty.symm.trans hframes) (by simp)
  | ends | falls => exact ⟨inner, frame, hframes, rfl, rfl⟩
  | @executes top rest instr _ htop hinstr hexec =>
    cases inner with
    | nil =>
      -- The activation itself goes on.
      obtain ⟨rfl, rfl⟩ := List.cons.inj (htop.symm.trans hframes)
      cases hexec with
      | stays hcode _ hline =>
        refine ⟨[], _, rfl, hcode, hline.trans ?_⟩
        cases instr with
        | line l => exact nomatch hprogress.symm.trans (step_eq_execute htop hinstr)
        | _ => rfl
      | prints | fails => exact ⟨[], _, rfl, rfl, rfl⟩
      | reaches hline => exact ⟨[], _, rfl, rfl, honly _ _ rfl (by rw [hframes]; rfl)⟩
      | enters => exact ⟨[_], _, rfl, rfl, rfl⟩
      | leaves hcallers =>
        subst hcallers
        exact absurd hstays (Nat.lt_irrefl _)
      | finishes => exact absurd hstays (Nat.not_lt_zero _)
    | cons called inner =>
      -- Something that it has called goes on, and may return to it.
      obtain ⟨rfl, rfl⟩ := List.cons.inj (htop.symm.trans hframes)
      cases hexec with
      | stays | prints | reaches | fails => exact ⟨_ :: inner, frame, rfl, rfl, rfl⟩
      | enters => exact ⟨_ :: _ :: inner, frame, rfl, rfl, rfl⟩
      | @leaves caller outer v hcallers =>
        cases inner with
        | nil =>
          obtain ⟨rfl, rfl⟩ := List.cons.inj hcallers
          exact ⟨[], _, rfl, rfl, rfl⟩
        | cons next inner =>
          obtain ⟨rfl, rfl⟩ := List.cons.inj hcallers
          exact ⟨_ :: inner, frame, rfl, rfl, rfl⟩
      | finishes => exact absurd hstays (Nat.not_lt_zero _)

end Machine

namespace Execution

variable {σ : Type} {w : Watcher σ} {e e' origin first : Execution} {s s' s₀ s₁ : σ}
  {program : Program} {code : Code} {callers : List Frame} {line : Line}

/-- The states that a run comes to while the frame at a depth stays and is not shown on any other
    line than the given one. -/
inductive StaysOn (w : Watcher σ) (depth : Nat) (line : Line) (first : Execution) (s₀ : σ) :
    Execution → σ → Prop
  | start : StaysOn w depth line first s₀ first s₀
  | begins {e : Execution} {s : σ} (h : StaysOn w depth line first s₀ e s)
      (hgoes : e.isTerminated = false) :
      StaysOn w depth line first s₀ { e with control := .running } s
  | step {e e' : Execution} {s s' : σ} {ending : Option Outcome}
      (h : StaysOn w depth line first s₀ e s) (hrunning : e.control = .running)
      (hstep : e.step w s = (ending, e', s')) (hstays : depth ≤ e'.machine.frames.length)
      (honly : ∀ l, ending = some (.paused l) → e.machine.frames.length = depth → l = line) :
      StaysOn w depth line first s₀ e' s'
  | pauses {e e' : Execution} {s s' : σ} {l : Line} (h : StaysOn w depth line first s₀ e s)
      (hrunning : e.control = .running) (hstep : e.step w s = (some (.paused l), e', s'))
      (hstays : depth ≤ e'.machine.frames.length)
      (honly : e.machine.frames.length = depth → l = line) :
      StaysOn w depth line first s₀ { e' with control := .paused l } s'

/-- A step that does not end the stretch shows no line. -/
theorem StaysOn.goes {depth : Nat} (h : StaysOn w depth line first s₀ e s)
    (hrunning : e.control = .running) (hstep : e.step w s = (none, e', s'))
    (hstays : depth ≤ e'.machine.frames.length) : StaysOn w depth line first s₀ e' s' :=
  h.step hrunning hstep hstays fun _ hpaused => by cases hpaused

/-- They are among those that the run comes to. -/
theorem StaysOn.visits {depth : Nat} (h : StaysOn w depth line first s₀ e s)
    (hfirst : Visits w origin s₁ first s₀) : Visits w origin s₁ e s := by
  induction h with
  | start => exact hfirst
  | begins _ hgoes ih => exact ih.begins hgoes
  | step _ hrunning hstep _ _ ih => exact ih.step hrunning hstep
  | pauses _ hrunning hstep _ _ ih => exact ih.pauses hrunning hstep

/-- While a run is traced, an activation changes its line only when the watcher is shown it. -/
theorem hasActivation_of_step {ending : Option Outcome}
    (haccepts : ∀ view s, ∃ s', w.onLine view s = .ok s') (htraced : e.traced = true)
    (h : e.machine.HasActivation code callers line) (hstep : e.step w s = (ending, e', s'))
    (hstays : callers.length + 1 ≤ e'.machine.frames.length)
    (honly : ∀ l, ending = some (.paused l) → e.machine.frames.length = callers.length + 1 →
      l = line) :
    e'.machine.HasActivation code callers line := by
  rw [machine_of_step hstep] at hstays ⊢
  refine h.step hstays fun l m hline hdepth => honly l ?_ hdepth
  obtain ⟨s'', hs''⟩ := haccepts (m.view l) s
  simp only [Execution.step, hline, htraced, if_true, hs''] at hstep
  exact (congrArg Prod.fst hstep).symm

/-- As long as an activation stays and is shown on no line but one, it is under way on that line. -/
theorem StaysOn.hasActivation (haccepts : ∀ view s, ∃ s', w.onLine view s = .ok s')
    (htraced : origin.traced = true) (hfirst : Visits w origin s₁ first s₀)
    (hactivation : first.machine.HasActivation code callers line)
    (h : StaysOn w (callers.length + 1) line first s₀ e s) :
    e.machine.HasActivation code callers line := by
  -- A watcher that accepts every line never ends the tracing, so each line reached is shown.
  have hgoes : ∀ {e s}, StaysOn w (callers.length + 1) line first s₀ e s →
      e.control = .running → e.traced = true := fun h hrunning =>
    (h.visits hfirst).traced haccepts htraced (by rw [isTerminated, hrunning])
  induction h with
  | start => exact hactivation
  | begins _ _ ih => exact ih
  | step h hrunning hstep hstays honly ih =>
    exact hasActivation_of_step haccepts (hgoes h hrunning) ih hstep hstays honly
  | @pauses e e' _ _ _ h hrunning hstep hstays honly ih =>
    show e'.machine.HasActivation code callers line
    refine hasActivation_of_step haccepts (hgoes h hrunning) ih hstep hstays fun l hl => ?_
    cases hl
    exact honly

/-- All frames are where their codes can lead to, up to the end of a run. -/
theorem Visits.onPath {maxDepth : Nat} {traced : Bool}
    (h : Visits w (Execution.start code maxDepth traced) s₀ e s) (hgoes : e.isTerminated = false) :
    e.machine.OnPath := by
  have hkeeps : Keeps w fun e => e.isTerminated = false → e.machine.OnPath := by
    refine ⟨fun h hgoes _ => h hgoes, fun {e} s h _ => ?_, fun _ h hcontrol _ => h ?_⟩
    · have hpath := fun hgoes => (h hgoes).step
      rw [Execution.step]
      generalize e.machine.step = progress at hpath
      cases progress with
      | next m | printed text m => exact fun hgoes => hpath hgoes fun _ _ hfault => by cases hfault
      | atLine l m =>
        have hline := fun hgoes => hpath hgoes fun _ _ hfault => by cases hfault
        dsimp only
        split
        · split <;> exact hline
        · exact hline
      | finished m | faulted fault m => rintro ⟨⟩
    · rw [isTerminated, hcontrol]
  exact hkeeps.visits (fun _ => Machine.onPath_start code maxDepth) h hgoes

/-- A line is shown again only when a loop on it goes into its next round. In every run of a program
    whose text has fewer than `2 ^ 32` lines, under a watcher that accepts every line, let an
    activation be shown on a line, and later on that line again, while it stays and is shown on no
    other line. If the line is not crowded, then the second time its frame is at the head of a loop
    that stands on the line, which evaluates the header of the loop anew. -/
theorem Visits.rechecks {limit : Nat} {source : String} {maxDepth : Nat} {frame : Frame}
    {e₁ e₂ e₃ : Execution} {s s₁ s₂ s₃ : σ}
    (hparse : Program.parse limit source = .ok program) (hcompile : program.compile = .ok code)
    (hlines : Syntax.lineCount source < UInt32.size)
    (haccepts : ∀ view s, ∃ s', w.onLine view s = .ok s')
    (h : Visits w (Execution.start code maxDepth true) s₀ e s) (hrunning : e.control = .running)
    (hframes : e.machine.frames = frame :: callers)
    (hshows : e.step w s = (some (.paused line), e₁, s₁))
    (hstays : StaysOn w (callers.length + 1) line { e₁ with control := .paused line } s₁ e₂ s₂)
    (hrunning' : e₂.control = .running) (hdepth : e₂.machine.frames.length = callers.length + 1)
    (hagain : e₂.step w s₂ = (some (.paused line), e₃, s₃))
    (hcrowded : ¬ program.Crowds line frame.code) :
    ∃ frame', e₂.machine.frames = frame' :: callers ∧ frame'.code = frame.code ∧
      frame.code.Rechecks line frame'.next := by
  have hlegal := Program.isLegal_of_parse hparse hcompile
  have hascends := Program.ascending_of_parse hparse hlines
  obtain ⟨-, rfl⟩ := Program.compile_eq_ok_iff.1 hcompile
  have hpaused := h.pauses hrunning hshows
  have hvisits := hstays.visits hpaused
  -- The first look leaves the frame on the line, and there it stays.
  obtain ⟨frame₁, callers₁, hframes₁, -, hafter⟩ :=
    Machine.exists_mark_of_step (machine_step_of_paused hshows)
  obtain ⟨rfl, rfl⟩ := List.cons.inj (hframes₁.symm.trans hframes)
  obtain ⟨inner, frame', hframes', hcode, rfl⟩ :=
    hstays.hasActivation haccepts rfl hpaused ⟨[], _, hafter, rfl, rfl⟩
  obtain rfl : inner = [] := by
    rw [hframes', List.length_append, List.length_cons] at hdepth
    exact List.eq_nil_of_length_eq_zero (by omega)
  -- So the second mark is of the line that the frame is on.
  obtain ⟨frame₂, callers₂, hframes₂, hmark, -⟩ :=
    Machine.exists_mark_of_step (machine_step_of_paused hagain)
  obtain ⟨rfl, rfl⟩ := List.cons.inj (hframes₂.symm.trans hframes')
  have hmem : frame₂ ∈ e₂.machine.frames := hframes₂ ▸ List.mem_cons_self
  have hwithin := (hvisits.intact hlegal).within
  have hpath := hvisits.onPath (by rw [isTerminated, hrunning']) frame₂ hmem
  refine ⟨frame₂, hframes₂, hcode, ?_⟩
  rw [← hcode] at hcrowded ⊢
  exact (program.rechecks_or_crowds hlegal hascends (hwithin.frames frame₂ hmem).code.2 hpath
    hmark).resolve_right hcrowded

/-- A script that goes round in a loop on one line. -/
def spin : Program := [.whileLoop 1 (.bool true) [.pass 1]]

/-- When the line of the script above is shown for the second time, its test is about to be
    evaluated anew. -/
theorem Visits.rechecks_spin :
    Program.parse 20 "while True \x7b pass \x7d" = .ok spin ∧ ∃ e e₁ e₂ e₃ frame frame',
      Visits heedless (Execution.start spin.emit 5 true) () e () ∧
        e.machine.frames = [frame] ∧ e.step heedless () = (some (.paused 1), e₁, ()) ∧
        StaysOn heedless 1 1 { e₁ with control := .paused 1 } () e₂ () ∧
        e₂.step heedless () = (some (.paused 1), e₃, ()) ∧ e₂.machine.frames = [frame'] ∧
        frame'.code = frame.code ∧ frame.code.Rechecks 1 frame'.next := by
  have hparse : Program.parse 20 "while True \x7b pass \x7d" = .ok spin := by cbv
  have hcrowded : ¬ spin.Crowds 1 spin.emit := by
    generalize spin.emit = code
    rintro (hscript | ⟨hd, -⟩)
    · exact absurd hscript (by decide)
    · cases hd
  have hstart : Visits heedless (Execution.start spin.emit 5 true) () _ () := .start
  have hshown : StaysOn heedless 1 1
      { ((Execution.start spin.emit 5 true).step heedless ()).2.1 with control := .paused 1 } ()
      _ () := .start
  -- The jump to the test, the test itself, and the jump back to the head.
  have htest := ((hshown.begins rfl).goes rfl rfl (Nat.le_refl 1)).goes rfl rfl (Nat.le_refl 1)
  have hround := (htest.goes rfl rfl (Nat.le_refl 1)).goes rfl rfl (Nat.le_refl 1)
  obtain ⟨frame', hframes, hcode, hrechecks⟩ := Visits.rechecks hparse rfl (by decide)
    (fun _ s => ⟨s, rfl⟩) hstart rfl rfl rfl hround rfl rfl rfl hcrowded
  exact ⟨hparse, _, _, _, _, _, frame', hstart, rfl, rfl, hround, rfl, hframes, hcode, hrechecks⟩

/-- A script with a conditional on one line. -/
def lopsided : Program :=
  [.branch 1 (.bool false) [.assign 1 "x" (.int 1)] (.body [.assign 1 "x" (.int 2)])]

/-- Its line is crowded. -/
example : Stmt.crowdedOf 0 [0] lopsided = [1] := by decide

/-- The line of the script above is shown twice to an activation that is shown no other line and has
    no loop. The test fails after the first time, and the second mark is that of the other body. -/
theorem Visits.shows_twice :
    Program.parse 20 "if False \x7b x = 1 \x7d else \x7b x = 2 \x7d" = .ok lopsided ∧
      lopsided.compile = .ok lopsided.emit ∧ ∃ e e₁ e₂ e₃ frame frame',
        Visits heedless (Execution.start lopsided.emit 5 true) () e () ∧
          e.machine.frames = [frame] ∧ e.step heedless () = (some (.paused 1), e₁, ()) ∧
          StaysOn heedless 1 1 { e₁ with control := .paused 1 } () e₂ () ∧
          e₂.step heedless () = (some (.paused 1), e₃, ()) ∧ e₂.machine.frames = [frame'] ∧
          ¬ frame.code.Rechecks 1 frame'.next := by
  have hparse : Program.parse 20 "if False \x7b x = 1 \x7d else \x7b x = 2 \x7d" = .ok lopsided := by
    cbv
  have hstart : Visits heedless (Execution.start lopsided.emit 5 true) () _ () := .start
  have hshown : StaysOn heedless 1 1
      { ((Execution.start lopsided.emit 5 true).step heedless ()).2.1 with control := .paused 1 } ()
      _ () := .start
  have hfails := ((hshown.begins rfl).goes rfl rfl (Nat.le_refl 1)).goes rfl rfl (Nat.le_refl 1)
  refine ⟨hparse, rfl, _, _, _, _, _, _, hstart, rfl, rfl, hfails, rfl, rfl, ?_⟩
  -- The instruction in front of the mark leads to the end, and not past the mark.
  rintro ⟨⟨i, hhead, hjump⟩, -⟩
  obtain rfl : i = 5 := (Nat.succ.inj hhead).symm
  cases hjump

end Execution

end Linewise
