import Linewise.Proofs.Machine.Lines

/-!
# Entering a function

Whoever steps into a call wants to be shown the activation before anything happens in it. A
function whose first statement starts on a line below the definition begins with the `line`
instruction for that line, so the next thing after the call is that the watcher is shown the line
(`Execution.Visits.shows_entry`). Where the first statement starts on the line of the definition
there is no such instruction, as if the body came after code that had run on this line. So an
activation may return without having been shown (`Execution.Visits.returns_unseen`).
-/

namespace Linewise

/-- The code of a definition whose first statement is on another line begins with a mark of that
    line. -/
theorem Definition.code_begins {d : Definition} {first : Stmt Int64} {rest : List (Stmt Int64)}
    (hbody : d.body = first :: rest) (hline : first.line ≠ d.line) :
    d.code.instrs[0]? = some (.line first.line) := by
  simp only [code, hbody, Stmt.emitAll, emitLine, if_neg hline, List.cons_append, List.nil_append,
    List.getElem?_cons_zero]

namespace Machine

variable {m m' : Machine} {program : Program}

/-- A step that adds a frame enters a function of the program. -/
theorem exists_enter (hcodes : m.Within fun code => code.Guarded ∧ program.HasCode code)
    (hcarries : m.Carries Code.Callable) (hstep : m.step = .next m')
    (henters : m'.frames.length = m.frames.length + 1) :
    ∃ d ∈ program.definitions, ∃ locals callers, m'.frames = .enter d.code locals :: callers := by
  have hsteps := step_steps m
  rw [hstep] at hsteps
  cases hsteps with
  | @executes frame callers _ _ hframes _ hexec =>
    rw [hframes] at henters
    generalize hprogress : Progress.next m' = progress at hexec
    -- No instruction but a call leaves more frames than there were.
    cases hexec with
    | stays =>
      cases hprogress
      simp at henters
    | enters hcallee =>
      cases hprogress
      have hmem : frame ∈ m.frames := hframes ▸ List.mem_cons_self
      have hcode := Value.within_function.1 ((hcodes.frames frame hmem).stack _ hcallee)
      have hcallable := Value.within_function.1 ((hcarries.frames frame hmem).stack _ hcallee)
      cases hcode.2 with
      | script => cases hcallable.isModule
      | function hd => exact ⟨_, hd, _, _, rfl⟩
    | leaves hcallers =>
      cases hprogress
      subst hcallers
      simp only [List.length_cons] at henters
      omega
    | _ => cases hprogress

/-- An activation of a function whose first statement is on another line than the definition
    reaches the line of that statement at once. -/
theorem reaches_of_enter {d : Definition} {locals : Bindings (Value Code)} {callers : List Frame}
    {first : Stmt Int64} {rest : List (Stmt Int64)}
    (hframes : m.frames = .enter d.code locals :: callers) (hbody : d.body = first :: rest)
    (hline : first.line ≠ d.line) :
    ∃ m', m.step = .atLine first.line m' ∧ (m'.view first.line).line = first.line ∧
      (m'.view first.line).function = d.name ∧ (m'.view first.line).depth = m.frames.length := by
  refine ⟨m.withFrame { Frame.enter d.code locals with next := 1, line := first.line } callers,
    ?_, rfl, rfl, ?_⟩
  · rw [step_eq_execute hframes (Definition.code_begins hbody hline)]
    rfl
  · rw [hframes]
    rfl

end Machine

namespace Execution

variable {σ : Type} {w : Watcher σ} {e first : Execution} {s s₀ : σ} {program : Program}

/-- A run is traced up to its end by a watcher that accepts every line. -/
theorem Visits.traced (haccepts : ∀ view s, ∃ s', w.onLine view s = .ok s')
    (hfirst : first.traced = true) (h : Visits w first s₀ e s) (hgoes : e.isTerminated = false) :
    e.traced = true := by
  have hkeeps : Keeps w fun e => e.isTerminated = false → e.traced = true := by
    refine ⟨fun h hgoes _ => h hgoes, fun {e} s h _ => ?_, fun _ h hcontrol _ => h ?_⟩
    · rw [Execution.step]
      split
      · exact h
      · exact h
      next line m _ =>
        split
        · obtain ⟨s', hs'⟩ := haccepts (m.view line) s
          rw [hs']
          exact h
        · exact h
      · rintro ⟨⟩
      · rintro ⟨⟩
    · rw [isTerminated, hcontrol]
  exact hkeeps.visits (fun _ => hfirst) h hgoes

/-- An activation is shown before anything happens in it. In every run of a program under a watcher
    that accepts every line, a call enters a function that the program defines. If the first
    statement of its body does not start on the line of the definition, then the next instruction
    shows the line of that statement to the watcher, with one more frame than the caller had. -/
theorem Visits.shows_entry {limit : Nat} {source : String} {code : Code} {maxDepth : Nat}
    {m : Machine} (hparse : Program.parse limit source = .ok program)
    (hcompile : program.compile = .ok code) (haccepts : ∀ view s, ∃ s', w.onLine view s = .ok s')
    (h : Visits w (Execution.start code maxDepth true) s₀ e s) (hrunning : e.control = .running)
    (hstep : e.machine.step = .next m) (henters : m.frames.length = e.machine.frames.length + 1) :
    e.step w s = (none, { e with machine := m }, s) ∧
      ∃ d ∈ program.definitions, ∃ locals callers, m.frames = .enter d.code locals :: callers ∧
        ∀ first rest, d.body = first :: rest → first.line ≠ d.line →
          ∃ view s' e', view.line = first.line ∧ view.function = d.name ∧
            view.depth = e.machine.frames.length + 1 ∧ w.onLine view s = .ok s' ∧
            Execution.step w { e with machine := m } s = (some (.paused first.line), e', s') := by
  have hlegal := Program.isLegal_of_parse hparse hcompile
  obtain ⟨-, rfl⟩ := Program.compile_eq_ok_iff.1 hcompile
  have hintact := h.intact hlegal
  obtain ⟨d, hd, locals, callers, hframes⟩ :=
    Machine.exists_enter hintact.within hintact.carries hstep henters
  refine ⟨by rw [Execution.step, hstep], d, hd, locals, callers, hframes, ?_⟩
  intro first rest hbody hline
  have htraced := h.traced haccepts rfl (by rw [isTerminated, hrunning])
  -- A body that begins on a line of its own begins with the mark of that line.
  obtain ⟨m', hreaches, hviewLine, hfunction, hdepth⟩ :=
    Machine.reaches_of_enter hframes hbody hline
  obtain ⟨s', hs'⟩ := haccepts (m'.view first.line) s
  refine ⟨m'.view first.line, s', { e with machine := m' }, hviewLine, hfunction,
    hdepth.trans henters, hs', ?_⟩
  simp only [Execution.step, hreaches, htraced, if_true, hs']

/-- A script that calls a function of two lines. -/
def patient : Program :=
  [.define 1 "f" [] [.leave 2 (some (.int 1))] 0, .expr 3 (.call (.ident "f") [])]

/-- When the script above calls its function, the function's own line is shown with two frames. -/
theorem Visits.shows_entry_patient :
    Program.parse 20 "def f() \x7b\nreturn 1 \x7d\nf()" = .ok patient ∧ ∃ e m,
      Visits heedless (Execution.start patient.emit 5 true) () e () ∧
        e.machine.frames.length = 1 ∧ e.machine.step = .next m ∧ m.frames.length = 2 ∧
        ∃ view : FrameView, view.line = 2 ∧ view.function = "f" ∧ view.depth = 2 ∧
          ∃ e', Execution.step heedless { e with machine := m } () =
            (some (.paused 2), e', ()) := by
  have hparse : Program.parse 20 "def f() \x7b\nreturn 1 \x7d\nf()" = .ok patient := by cbv
  have hstart : Visits heedless (Execution.start patient.emit 5 true) () _ () := .start
  have hcalls := (hstart.step rfl rfl).step rfl rfl
  have hcall := ((hcalls.step rfl rfl).step rfl rfl).step rfl rfl
  obtain ⟨-, d, hd, _, _, hframes, hshows⟩ :=
    Visits.shows_entry hparse rfl (fun _ s => ⟨s, rfl⟩) hcall rfl rfl rfl
  obtain rfl := List.mem_singleton.1 hd
  obtain ⟨view, _, e', hline, hfunction, hdepth, -, hstep⟩ := hshows _ _ rfl (by decide)
  exact ⟨hparse, _, _, hcall, rfl, rfl, rfl, view, hline, hfunction, hdepth, e', hstep⟩

/-- A script that calls a function of one line. -/
def hasty : Program :=
  [.define 1 "f" [] [.leave 1 (some (.int 1))] 0, .expr 2 (.call (.ident "f") [])]

/-- An activation of a function of one line may return before the watcher is shown anything of it:
    a step enters the function, two more leave it, and no line is reached in between. -/
theorem Visits.returns_unseen :
    Program.parse 20 "def f() \x7b return 1 \x7d\nf()" = .ok hasty ∧
      hasty.compile = .ok hasty.emit ∧ ∃ e m₁ m₂ m₃,
        Visits heedless (Execution.start hasty.emit 5 true) () e () ∧ e.control = .running ∧
          e.machine.step = .next m₁ ∧ m₁.step = .next m₂ ∧ m₂.step = .next m₃ ∧
          e.machine.frames.length = 1 ∧ m₁.frames.length = 2 ∧ m₂.frames.length = 2 ∧
          m₃.frames.length = 1 := by
  have hparse : Program.parse 20 "def f() \x7b return 1 \x7d\nf()" = .ok hasty := by cbv
  have hstart : Visits heedless (Execution.start hasty.emit 5 true) () _ () := .start
  have hcall := ((((hstart.step rfl rfl).step rfl rfl).step rfl rfl).step rfl rfl).step rfl rfl
  exact ⟨hparse, rfl, _, _, _, _, hcall, rfl, rfl, rfl, rfl, rfl, rfl, rfl, rfl⟩

end Execution

end Linewise
