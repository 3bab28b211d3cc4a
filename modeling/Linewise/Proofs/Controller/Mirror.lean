import Linewise.Proofs.Controller.Log

/-!
# What the surface of a controller shows

Whatever happens to a controller, its surface shows what it stands at (`Controller.Mirrors`): the
controls that are enabled, the breakpoints, and the variables of the line that the run is paused
at. This holds from the beginning and after each action of the user and each message of a worker,
well-formed or not, whichever commands the workers can be given (`Controller.mirrors_history`).

The staff of the controller is arbitrary, so each command may or may not be delivered. The
attempts to send one are read off the effects of an input (`Controller.attempts`):

* nothing else is asked of the staff about commands (`Controller.perform_congr`);
* a control makes an attempt exactly if it was shown as enabled, and is without effect otherwise
  (`Controller.Obeys`);
* the controller crashes exactly if an attempt fails or the transition says so
  (`Controller.state_perform`).
-/

namespace Linewise

open Wire (Command Envelope)

/-- The action of the user for a mode. -/
def RunMode.action : RunMode → Action
  | run => .run
  | step => .step

/-- The control for a mode is enabled. -/
def Controls.enables (controls : Controls) : RunMode → Bool
  | .run => controls.run
  | .step => controls.step

/-! ## Transitions -/

namespace ControllerState

variable {breakpoints : Breakpoints} {state : ControllerState} {input : Input} {line : Line}
  {effects : List Effect}

/-- A controller is paused at a line if it has just shown the variables there, or if it was paused
    at that line before and has shown no others. -/
theorem paused_of_transition (h : state.transition breakpoints input = (.paused line, effects)) :
    (∃ scope text, effects = [.update (.showVariables line scope), .say text]) ∨
      state = .paused line ∧ (effects = [] ∨ ∃ text, effects = [.say text]) := by
  -- Only an event leads to a pause or leaves one in place.
  cases input with
  | reset => cases h
  | fault message => cases h
  | run source | step source => cases state <;> cases h
  | event event =>
    cases event with
    | output text =>
      cases h
      exact .inr ⟨rfl, .inr ⟨text, rfl⟩⟩
    | ready | loadFailed message =>
      cases state <;> cases h
      exact .inr ⟨rfl, .inl rfl⟩
    | lineExecuted shown scope =>
      cases state with
      -- The line is shown before the controller says that it has paused.
      | awaitingPause mode =>
        rw [transition, receive, arrive] at h
        split at h
        · cases h
          exact .inl ⟨scope, _, rfl⟩
        · cases h
      | paused earlier =>
        cases h
        exact .inr ⟨rfl, .inl rfl⟩
      | _ => cases h
    | programEnd | error message => cases state <;> cases h

/-- Breakpoints are not shown in a transition, but when they change. -/
theorem showBreakpoints_notMem_transition (lines : List Line) :
    .update (.showBreakpoints lines) ∉ (state.transition breakpoints input).2 := by
  cases input with
  | reset | fault message => simp [transition, Effect.say]
  | run source | step source => cases state <;> simp [transition, start, proceed, Effect.say]
  | event event =>
    cases event <;> cases state <;> simp [transition, receive, arrive, Effect.say]
    split <;> simp

/-- A control that is not enabled has no effect. -/
theorem transition_of_disabled {mode : RunMode} {source : String}
    (h : state.controls.enables mode = false) :
    state.transition breakpoints (mode.input source) = (state, []) := by
  cases mode <;> cases state <;> first | rfl | cases h

/-- A control that is enabled sends a command in the end. -/
theorem exists_send_of_enabled {mode : RunMode} (breakpoints : Breakpoints) (source : String)
    (h : state.controls.enables mode = true) : ∃ (changes : List Update) (command : Command),
      (state.transition breakpoints (mode.input source)).2 =
        changes.map .update ++ [.send command] := by
  let opening : List Update := [.clearOutput, .clearVariables, .appendOutput (startText mode)]
  cases mode <;> cases state <;>
    first
    | exact ⟨opening, .startExecution source, rfl⟩
    | exact ⟨[], .continueExecution, rfl⟩
    | cases h

end ControllerState

namespace Controller

/-! ## Attempts -/

section Attempts

variable {υ ω : Type}

/-- The attempts to give a command to the workers while some effects are performed, each with the
    state that the workers are in. There is none behind one that fails. -/
def attempts (staff : Staff ω) : List Effect → ω → List (Command × ω)
  | [], _ => []
  | .update _ :: effects, workers => attempts staff effects workers
  | .replaceWorker :: effects, workers => attempts staff effects (staff.hire workers).2
  | .send command :: effects, workers =>
    (command, workers) ::
      match staff.send command workers with
      | some workers => attempts staff effects workers
      | none => []

/-- One of some attempts fails. -/
def Fails (staff : Staff ω) (attempted : List (Command × ω)) : Prop :=
  ∃ attempt ∈ attempted, staff.send attempt.1 attempt.2 = none

variable {desk : Desk υ ω} {effects : List Effect}

/-- The effects do not depend on what the staff does with commands that it is not given. -/
theorem perform_congr {send : Command → ω → Option ω} {c : Controller υ ω}
    (h : ∀ attempt ∈ attempts desk.staff effects c.workers,
      send attempt.1 attempt.2 = desk.staff.send attempt.1 attempt.2) :
    perform ⟨desk.surface, ⟨send, desk.staff.hire⟩⟩ effects c = perform desk effects c := by
  induction effects generalizing c with
  | nil => rfl
  | cons effect effects ih =>
    cases effect with
    | update change => exact ih (c := c.update desk change) h
    | replaceWorker => exact ih (c := { c with session := _, workers := _ }) h
    | send command =>
      rw [attempts] at h
      have hsend := h _ List.mem_cons_self
      rw [perform, perform]
      dsimp only at hsend ⊢
      rw [hsend]
      cases hworkers : desk.staff.send command c.workers with
      | none => rfl
      | some workers =>
        rw [hworkers] at h
        exact ih fun attempt hmem => h attempt (List.mem_cons_of_mem _ hmem)

/-- Effects leave the state alone, unless an attempt fails. -/
theorem state_perform (desk : Desk υ ω) (effects : List Effect) (c : Controller υ ω) :
    (Fails desk.staff (attempts desk.staff effects c.workers) ∧
        (perform desk effects c).state = .crashed) ∨
      ¬Fails desk.staff (attempts desk.staff effects c.workers) ∧
        (perform desk effects c).state = c.state := by
  induction effects generalizing c with
  | nil => exact .inr ⟨nofun, rfl⟩
  | cons effect effects ih =>
    cases effect with
    | update change => exact ih (c.update desk change)
    | replaceWorker => exact ih { c with session := _, workers := _ }
    | send command =>
      rw [attempts, perform]
      cases hworkers : desk.staff.send command c.workers with
      | none => exact .inl ⟨⟨_, List.mem_cons_self, hworkers⟩, rfl⟩
      | some workers =>
        rcases ih { c with workers } with ⟨⟨attempt, hmem, hfails⟩, hstate⟩ | ⟨hnone, hstate⟩
        · exact .inl ⟨⟨attempt, List.mem_cons_of_mem _ hmem, hfails⟩, hstate⟩
        · refine .inr ⟨?_, hstate⟩
          rintro ⟨attempt, hmem, hfails⟩
          rcases List.mem_cons.1 hmem with rfl | hmem
          · rw [hworkers] at hfails
            cases hfails
          · exact hnone ⟨attempt, hmem, hfails⟩

/-- A controller that cannot deliver one of its commands has crashed afterwards. -/
theorem crashed_of_fails_perform (desk : Desk υ ω) (c : Controller υ ω)
    (h : Fails desk.staff (attempts desk.staff effects c.workers)) :
    (perform desk effects c).state = .crashed := by
  rcases state_perform desk effects c with ⟨-, hcrashed⟩ | ⟨hnone, -⟩
  · exact hcrashed
  · exact absurd h hnone

end Attempts

/-! ## What happens -/

/-- What can happen to a controller with a recording for a surface and workers with states from
    `ω`. -/
inductive Happening (ω : Type)
  | action (action : Action)
  /-- A message of a worker, or none because the present worker has gone away. -/
  | message (text : Option String)
  /-- The user changes the text in the editor. -/
  | edit (source : String)
  /-- Something happens to the workers. -/
  | work (workers : ω)

variable {ω : Type}

/-- The breakpoints that the user has set after something has happened. -/
def Happening.breakpoints (breakpoints : Breakpoints) : Happening ω → Breakpoints
  | .action (.addBreakpoint text) =>
    match Breakpoints.line? text with
    | some line => breakpoints.insert line
    | none => breakpoints
  | .action (.removeBreakpoint line) => breakpoints.erase line
  | .action _ | .message _ | .edit _ | .work _ => breakpoints

variable (staff : Staff ω)

/-- What a controller with a recording works with. -/
def recordingDesk : Desk Recording ω := ⟨Recording.surface, staff⟩

/-- The controller after something has happened. -/
def handle (c : Controller Recording ω) : Happening ω → Controller Recording ω
  | .action action => c.act (recordingDesk staff) action
  | .message text => c.receive (recordingDesk staff) text
  | .edit source => { c with surface := { c.surface with source } }
  | .work workers => { c with workers }

/-- The controller after all that has happened since the beginning. -/
def history (breakpoints : Breakpoints) (recording : Recording) (workers : ω)
    (happenings : List (Happening ω)) : Controller Recording ω :=
  happenings.foldl (handle staff) (.new (recordingDesk staff) breakpoints recording workers)

/-- The input that something amounts to. -/
def input? (c : Controller Recording ω) : Happening ω → Option Input
  | .action action => action.input? c.surface.source
  | .message none => some (.fault workerGoneText)
  | .message (some text) =>
    match Envelope.decode text with
    | .error complaint => some (.fault complaint.message)
    | .ok envelope => if envelope.session = c.session then some (.event envelope.event) else none
  | .edit _ | .work _ => none

/-- The attempts to send a command when something happens. -/
def attemptsOn (c : Controller Recording ω) (happening : Happening ω) : List (Command × ω) :=
  match c.input? happening with
  | some input => attempts staff (c.state.transition c.breakpoints input).2 c.workers
  | none => []

/-- The attempts to send a command at the beginning. -/
def firstAttempts (workers : ω) : List (Command × ω) :=
  attempts staff [.send .load] (staff.hire workers).2

variable {staff} {c : Controller Recording ω} {breakpoints : Breakpoints} {input : Input}
  {happening : Happening ω}

/-- What amounts to an input is handled as that input is. -/
theorem handle_of_input? (h : c.input? happening = some input) :
    c.handle staff happening = c.apply (recordingDesk staff) input := by
  cases happening with
  | action action => cases action <;> cases h <;> rfl
  | message text =>
    cases text with
    | none =>
      cases h
      rfl
    | some text =>
      rw [input?] at h
      rw [handle, receive]
      cases hdecode : Envelope.decode text with
      | error complaint =>
        rw [hdecode] at h
        cases h
        rfl
      | ok envelope =>
        rw [hdecode] at h
        dsimp only at h ⊢
        split at h
        next hsession =>
          cases h
          rw [if_pos hsession]
        -- A message of another session amounts to nothing.
        next => cases h
  | edit source | work workers => cases h

/-- An input of the transition leaves the breakpoints as they are. -/
theorem breakpoints_of_input? (h : c.input? happening = some input) :
    happening.breakpoints breakpoints = breakpoints := by
  cases happening with
  | action action => cases action <;> cases h <;> rfl
  | message text => rfl
  | edit source | work workers => cases h

/-- A message that is no input has no effect. -/
theorem handle_message_of_none {text : Option String} (h : c.input? (.message text) = none) :
    c.handle staff (.message text) = c := by
  cases text with
  | none => cases h
  | some text =>
    rw [input?] at h
    rw [handle, receive]
    cases hdecode : Envelope.decode text with
    | error complaint =>
      rw [hdecode] at h
      cases h
    | ok envelope =>
      rw [hdecode] at h
      dsimp only at h ⊢
      split at h
      next => cases h
      next hsession => rw [if_neg hsession]

/-! ## The panels -/

/-- What a recording shows is what its controller stands at, where some breakpoints have been
    set. -/
structure Mirrors (breakpoints : Breakpoints) (c : Controller Recording ω) : Prop where
  breakpoints_eq : c.breakpoints = breakpoints
  shown_controls : c.surface.panels.controls = c.state.controls
  shown_breakpoints : c.surface.panels.breakpoints = breakpoints.lines
  shown_scope : ∀ line, c.state = .paused line →
    ∃ scope, c.surface.panels.scope = some (line, scope)

/-- No effect changes the breakpoints. -/
theorem perform_breakpoints {υ : Type} {desk : Desk υ ω} (effects : List Effect)
    (c : Controller υ ω) : (perform desk effects c).breakpoints = c.breakpoints := by
  induction effects generalizing c with
  | nil => rfl
  | cons effect effects ih =>
    cases effect with
    | update change => exact ih (c.update desk change)
    | replaceWorker => exact ih _
    | send command =>
      rw [perform]
      cases desk.staff.send command c.workers with
      | none => rfl
      | some workers => exact ih { c with workers }

/-- Effects leave the list of breakpoints alone that is shown, unless they show one. -/
theorem shown_breakpoints_perform {effects : List Effect}
    (h : ∀ lines, .update (.showBreakpoints lines) ∉ effects) (c : Controller Recording ω) :
    (perform (recordingDesk staff) effects c).surface.panels.breakpoints =
      c.surface.panels.breakpoints := by
  induction effects generalizing c with
  | nil => rfl
  | cons effect effects ih =>
    have hrest := fun lines hmem => h lines (List.mem_cons_of_mem effect hmem)
    cases effect with
    | update change =>
      refine (ih hrest _).trans ?_
      cases change with
      | showBreakpoints lines => exact absurd List.mem_cons_self (h lines)
      | _ => rfl
    | replaceWorker => exact ih hrest _
    | send command =>
      rw [perform]
      cases (recordingDesk staff).staff.send command c.workers with
      | none => rfl
      | some workers => exact ih hrest { c with workers }

/-- An input does what its transition says, and then the controls are shown. -/
theorem apply_of_transition {υ : Type} {desk : Desk υ ω} {c : Controller υ ω}
    {state : ControllerState} {effects : List Effect}
    (h : c.state.transition c.breakpoints input = (state, effects)) :
    c.apply desk input = (perform desk effects { c with state }).showControls desk := by
  rw [apply, h]

/-- A controller that is paused after an input shows the variables of the line. -/
theorem Mirrors.shown_scope_apply (h : c.Mirrors breakpoints) {line : Line}
    (hpaused : (c.apply (recordingDesk staff) input).state = .paused line) :
    ∃ scope, (c.apply (recordingDesk staff) input).surface.panels.scope = some (line, scope) := by
  rcases htransition : c.state.transition c.breakpoints input with ⟨next, effects⟩
  rw [apply_of_transition htransition] at hpaused ⊢
  change (perform (recordingDesk staff) effects { c with state := next }).state = _ at hpaused
  rcases state_perform (recordingDesk staff) effects { c with state := next } with
    ⟨-, hcrashed⟩ | ⟨-, hnext⟩
  · rw [hcrashed] at hpaused
    cases hpaused
  obtain rfl : next = .paused line := hnext.symm.trans hpaused
  obtain ⟨scope, text, rfl⟩ | ⟨hpaused, heffects⟩ :=
    ControllerState.paused_of_transition htransition
  · exact ⟨scope, rfl⟩
  · obtain ⟨scope, hscope⟩ := h.shown_scope line hpaused
    refine ⟨scope, ?_⟩
    rcases heffects with rfl | ⟨text, rfl⟩ <;> exact hscope

/-- An input leads to a controller whose surface shows what it stands at. -/
theorem Mirrors.apply (h : c.Mirrors breakpoints) (input : Input) :
    (c.apply (recordingDesk staff) input).Mirrors breakpoints := by
  have hsame : (c.apply (recordingDesk staff) input).surface.panels.breakpoints =
      c.surface.panels.breakpoints :=
    shown_breakpoints_perform ControllerState.showBreakpoints_notMem_transition _
  exact ⟨(perform_breakpoints _ _).trans h.breakpoints_eq, rfl, hsame.trans h.shown_breakpoints,
    fun _ => h.shown_scope_apply⟩

/-- A new surface mirrors its new controller. -/
theorem mirrors_new (breakpoints : Breakpoints) (recording : Recording) (workers : ω) :
    (Controller.new (recordingDesk staff) breakpoints recording workers).Mirrors breakpoints := by
  dsimp only [Controller.new, perform]
  split
  · exact ⟨rfl, rfl, rfl, nofun⟩
  · exact ⟨rfl, rfl, rfl, nofun⟩

/-- Whatever happens leads to a controller whose surface shows what it stands at. -/
theorem Mirrors.handle (h : c.Mirrors breakpoints) (happening : Happening ω) :
    (c.handle staff happening).Mirrors (happening.breakpoints breakpoints) := by
  cases hinput : c.input? happening with
  | some input =>
    rw [handle_of_input? hinput, breakpoints_of_input? hinput]
    exact h.apply input
  | none =>
    cases happening with
    | action action =>
      -- What is no input is about the breakpoints, or does nothing to the controller.
      have hshown (breakpoints : Breakpoints) : Mirrors breakpoints
          (Controller.showBreakpoints (recordingDesk staff) { c with breakpoints }) :=
        ⟨rfl, h.shown_controls, rfl, h.shown_scope⟩
      obtain rfl := h.breakpoints_eq
      cases action with
      | run | step | reset => cases hinput
      | addBreakpoint text =>
        rw [Controller.handle, act, addBreakpoint, Happening.breakpoints]
        cases Breakpoints.line? text with
        | none => exact h
        | some line => exact hshown _
      | removeBreakpoint line => exact hshown _
      | listBreakpoints => exact hshown _
      | quit => exact h
    | message text =>
      rw [handle_message_of_none hinput]
      exact h
    | edit source => exact ⟨h.breakpoints_eq, h.shown_controls, h.shown_breakpoints, h.shown_scope⟩
    | work workers => exact ⟨h.breakpoints_eq, h.shown_controls, h.shown_breakpoints, h.shown_scope⟩

/-- A surface that mirrors its controller does so after all that happens to it. -/
theorem Mirrors.foldl (h : c.Mirrors breakpoints) (happenings : List (Happening ω)) :
    Mirrors (happenings.foldl Happening.breakpoints breakpoints)
      (happenings.foldl (Controller.handle staff) c) := by
  induction happenings generalizing c breakpoints with
  | nil => exact h
  | cons happening happenings ih => exact ih (h.handle happening)

/-! ## The controls -/

/-- Changes of the surface send no commands. -/
theorem attempts_map_update {effects : List Effect} (changes : List Update) (workers : ω) :
    attempts staff (changes.map .update ++ effects) workers = attempts staff effects workers := by
  induction changes with
  | nil => rfl
  | cons change changes ih => exact ih

/-- The control for a mode does something exactly if it is shown as enabled: an attempt to send a
    command is made if it is, and nothing changes if it is not. -/
structure Obeys (staff : Staff ω) (mode : RunMode) (c : Controller Recording ω) : Prop where
  attempts_iff :
    c.attemptsOn staff (.action mode.action) ≠ [] ↔ c.surface.panels.controls.enables mode = true
  idle : c.surface.panels.controls.enables mode = false →
    (c.handle staff (.action mode.action)).state = c.state ∧
      (c.handle staff (.action mode.action)).session = c.session ∧
      (c.handle staff (.action mode.action)).workers = c.workers ∧
      (c.handle staff (.action mode.action)).surface.panels.output = c.surface.panels.output ∧
      (c.handle staff (.action mode.action)).surface.panels.scope = c.surface.panels.scope

/-- Where the surface mirrors the controller, each control does something exactly if it is shown as
    enabled. -/
theorem Mirrors.obeys (h : c.Mirrors breakpoints) (mode : RunMode) : c.Obeys staff mode := by
  have hinput : c.input? (.action mode.action : Happening ω) =
      some (mode.input c.surface.source) := by cases mode <;> rfl
  constructor
  · rw [h.shown_controls, attemptsOn, hinput]
    -- A transition of a disabled control has no effects, and one of an enabled control sends
    -- something.
    cases hshown : c.state.controls.enables mode with
    | false =>
      dsimp only
      rw [ControllerState.transition_of_disabled hshown]
      simp [attempts]
    | true =>
      obtain ⟨changes, command, heffects⟩ := ControllerState.exists_send_of_enabled
        c.breakpoints c.surface.source hshown
      dsimp only
      rw [heffects, attempts_map_update]
      simp [attempts]
  · intro hshown
    rw [h.shown_controls] at hshown
    rw [handle_of_input? hinput,
      apply_of_transition (ControllerState.transition_of_disabled hshown)]
    exact ⟨rfl, rfl, rfl, rfl, rfl⟩

/-! ## Histories -/

/-- A controller has crashed after an attempt to send a command that has failed. -/
theorem crashed_of_fails (h : Fails staff (c.attemptsOn staff happening)) :
    (c.handle staff happening).state = .crashed := by
  rw [attemptsOn] at h
  split at h
  next input hinput =>
    rw [handle_of_input? hinput]
    rcases htransition : c.state.transition c.breakpoints input with ⟨next, effects⟩
    rw [htransition] at h
    rw [apply_of_transition htransition]
    exact crashed_of_fails_perform (recordingDesk staff) { c with state := next } h
  next => exact absurd h (by rintro ⟨_, hmem, -⟩; cases hmem)

/-- After everything that has happened to a controller, its surface shows what it stands at: the
    controls that are enabled, the breakpoints that the user has set, each once and in ascending
    order, and the variables of the line that the run is paused at. The controls for running do what
    they show, and the controller crashes as soon as it fails to send a command. -/
theorem mirrors_history (staff : Staff ω) (breakpoints : Breakpoints) (recording : Recording)
    (workers : ω) (happenings : List (Happening ω)) :
    Mirrors (happenings.foldl Happening.breakpoints breakpoints)
        (history staff breakpoints recording workers happenings) ∧
      (history staff breakpoints recording workers happenings).surface.panels.breakpoints.Pairwise
        (· < ·) ∧
      (∀ mode, (history staff breakpoints recording workers happenings).Obeys staff mode) ∧
      (∀ happening,
        Fails staff
          ((history staff breakpoints recording workers happenings).attemptsOn staff happening) →
        (history staff breakpoints recording workers (happenings ++ [happening])).state =
          .crashed) ∧
      (Fails staff (firstAttempts staff workers) →
        (history staff breakpoints recording workers []).state = .crashed) := by
  have hnew : Mirrors breakpoints (.new (recordingDesk staff) breakpoints recording workers) :=
    mirrors_new breakpoints recording workers
  have hmirrors : Mirrors _ (history staff breakpoints recording workers happenings) :=
    hnew.foldl happenings
  -- All of it follows from the invariant but the two about failures, which are about one step each.
  refine ⟨hmirrors, ?_, hmirrors.obeys, fun happening hfails => ?_, fun hfails => ?_⟩
  · rw [hmirrors.shown_breakpoints]
    exact Breakpoints.ascending _
  · rw [history, List.foldl_append]
    exact crashed_of_fails hfails
  · exact crashed_of_fails_perform (recordingDesk staff)
      ⟨.loading, breakpoints, (staff.hire workers).1, _, (staff.hire workers).2⟩ hfails

/-- A staff that knows which of the next commands it can deliver. -/
def fatedStaff : Staff (List Bool) where
  send _ fates :=
    match fates with
    | true :: fates => some fates
    | _ => none
  hire fates := (⟨0⟩, fates)

/-- The controller crashes in the middle of a reset if it cannot have the new worker load the
    interpreter. -/
example : (history fatedStaff .empty (.new "pass") [true, false] [.action .reset]).surface.panels =
    ⟨#[resetText, faultText SessionError.channelClosed.message], none, [],
      ControllerState.crashed.controls⟩ := by decide

end Controller

end Linewise
