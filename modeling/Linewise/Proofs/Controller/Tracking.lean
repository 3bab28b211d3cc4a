import Linewise.Controller.Transition
import Linewise.Proofs.Controller.Agreement
import Linewise.Proofs.Session.Service

/-!
# Tracking a run

While a controller shows a run, the rows of variables that it has shown so far are those of the
lines of the run, up to the line that the session stands at or has just told of
(`Session.Tracks`). This is kept by a control that the user touches (`Session.Tracks.control`), a
request that is taken (`Session.Tracks.take`), a response that arrives
(`Session.Tracks.respond`) and any other event (`Session.Tracks.notice`).
-/

namespace Linewise

open Wire (Command Event)

/-! ## Rows of variables -/

/-- A line with its variables. -/
abbrev Row := Line × Bindings String

/-- What is shown of a line. -/
def Snapshot.row (limits : SnapshotLimits) (view : FrameView) : Row :=
  (view.line, scope limits view)

/-- The rows shown since the variables were cleared, after one more change. -/
def Update.rows (rows : List Row) : Update → List Row
  | .showVariables line scope => rows ++ [(line, scope)]
  | .clearVariables => []
  | .clearOutput | .appendOutput _ | .showBreakpoints _ | .setControls _ => rows

/-- The change to the surface that an effect makes. -/
def Effect.update? : Effect → Option Update
  | .update change => some change
  | .send _ | .replaceWorker => none

/-- The rows shown after some effects. -/
def Effect.rowsAfter (effects : List Effect) (rows : List Row) : List Row :=
  (effects.filterMap Effect.update?).foldl Update.rows rows

/-- Only lines are shown with their variables. -/
theorem ControllerState.rowsAfter_receive {event : Event}
    (h : ∀ line scope, event ≠ .lineExecuted line scope) (breakpoints : Breakpoints)
    (state : ControllerState) (rows : List Row) :
    Effect.rowsAfter (state.receive breakpoints event).2 rows = rows := by
  cases event with
  | lineExecuted line scope => exact absurd rfl (h line scope)
  | output text => rfl
  | _ => cases state <;> rfl

theorem RunMode.stopsAt_iff {mode : RunMode} {line : Line} {breakpoints : Breakpoints} :
    mode.stopsAt line breakpoints = true ↔ mode = .step ∨ line ∈ breakpoints := by
  cases mode <;> simp [stopsAt]

/-! ## Wishes -/

/-- What the user has asked for last: the script of the run, and how far it is to go on. -/
structure Wish where
  source : String
  mode : RunMode

/-- The input of the control for a mode, with the text in the editor. -/
def RunMode.input (mode : RunMode) (source : String) : Input :=
  match mode with
  | run => .run source
  | step => .step source

/-- What the user has asked for after the control for a mode. It starts a run of the text in the
    editor or goes on with the present one, if it is enabled. -/
def ControllerState.wish (state : ControllerState) (source : String) (mode : RunMode)
    (wish : Option Wish) : Option Wish :=
  match state with
  | .paused _ => wish.map fun wish => { wish with mode }
  | .idle => some ⟨source, mode⟩
  | .errored => if mode = .run then some ⟨source, mode⟩ else wish
  | .loading | .loadFailed | .awaitingPause _ | .finished | .crashed => wish

/-! ## Tracking -/

namespace Session

/-- Some rows are those of the lines of a run of a script that has led to a machine. -/
def Leads (interpreter : Interpreter) (limits : SnapshotLimits) (source : String)
    (rows : List Row) (m : Machine) : Prop :=
  ∃ code n sights, interpreter.compile source = .ok code ∧
    Machine.Runs n (.start code interpreter.maxCallDepth) sights m ∧
    rows = (Sight.views sights).map (Snapshot.row limits)

/-- Some rows are those of the first lines of a run, and none of a script that is refused. -/
def ShowsPart (interpreter : Interpreter) (limits : SnapshotLimits) (source : String)
    (rows : List Row) : Prop :=
  match interpreter.compile source with
  | .error _ => rows = []
  | .ok code => ∃ n sights m, Machine.Runs n (.start code interpreter.maxCallDepth) sights m ∧
    rows = (Sight.views sights).map (Snapshot.row limits)

/-- Some rows are those of all lines of a run that has finished. -/
def ShowsAll (interpreter : Interpreter) (limits : SnapshotLimits) (source : String)
    (rows : List Row) : Prop :=
  ∃ code sights m, interpreter.compile source = .ok code ∧
    Machine.Ends (.start code interpreter.maxCallDepth) sights .finished m ∧
    rows = (Sight.views sights).map (Snapshot.row limits)

/-- Some rows fit what the user has asked for: there are none without a run. -/
def ShowsFor (interpreter : Interpreter) (limits : SnapshotLimits) :
    Option Wish → List Row → Prop
  | none, rows => rows = []
  | some asked, rows => ShowsPart interpreter limits asked.source rows

/-- The session is paused on a line, and some rows are those of the lines up to it. -/
structure StandsAt (session : Session) (interpreter : Interpreter) (source : String)
    (rows : List Row) (line : Line) : Prop where
  state : session.state = .paused line
  leads : ∃ m, session.execution = some ⟨m, .paused line, true⟩ ∧
    Leads interpreter session.limits source rows m

/-- How the rows that have been shown stand to the session, to what the user has asked for last, to
    the state of the controller, and to the requests and the responses that are on their way. -/
inductive Tracks (interpreter : Interpreter) (session : Session) :
    List Row → Option Wish → ControllerState → List Command → List Event → Prop
  | unstarted {state : ControllerState}
      (hstate : state = .loading ∨ state = .loadFailed ∨ state = .idle) :
      Tracks interpreter session [] none state [] []
  | starting {wish : Wish} : Tracks interpreter session [] (some wish) (.awaitingPause wish.mode)
      [.startExecution wish.source] []
  | continuing {rows : List Row} {wish : Wish} {line : Line}
      (h : session.StandsAt interpreter wish.source rows line) :
      Tracks interpreter session rows (some wish) (.awaitingPause wish.mode)
        [.continueExecution] []
  | arriving {rows : List Row} {wish : Wish} {line : Line} {scope : Bindings String}
      (h : session.StandsAt interpreter wish.source (rows ++ [(line, scope)]) line)
      (hrows : ShowsPart interpreter session.limits wish.source rows) :
      Tracks interpreter session rows (some wish) (.awaitingPause wish.mode) []
        [.lineExecuted line scope]
  | finishing {rows : List Row} {wish : Wish}
      (h : ShowsAll interpreter session.limits wish.source rows) :
      Tracks interpreter session rows (some wish) (.awaitingPause wish.mode) [] [.programEnd]
  | failing {rows : List Row} {wish : Wish} {message : String}
      (h : ShowsPart interpreter session.limits wish.source rows) :
      Tracks interpreter session rows (some wish) (.awaitingPause wish.mode) [] [.error message]
  | paused {rows : List Row} {wish : Wish} {line : Line}
      (h : session.StandsAt interpreter wish.source rows line) :
      Tracks interpreter session rows (some wish) (.paused line) [] []
  | finished {rows : List Row} {wish : Wish}
      (h : ShowsAll interpreter session.limits wish.source rows) :
      Tracks interpreter session rows (some wish) .finished [] []
  | errored {rows : List Row} {wish : Wish}
      (h : ShowsPart interpreter session.limits wish.source rows) :
      Tracks interpreter session rows (some wish) .errored [] []

variable {interpreter : Interpreter} {session after : Session} {rows : List Row}
  {wish : Option Wish} {state : ControllerState} {requests : List Command}
  {responses : List Event} {source : String} {m m' : Machine} {limits : SnapshotLimits}

/-- There may be no rows yet, whatever the run. -/
theorem showsPart_nil (interpreter : Interpreter) (limits : SnapshotLimits) (source : String) :
    ShowsPart interpreter limits source [] := by
  rw [ShowsPart]
  cases interpreter.compile source with
  | error fault => rfl
  | ok code => exact ⟨0, [], _, .refl _, rfl⟩

/-- The rows up to a machine are those of the first lines of its run. -/
theorem Leads.showsPart (h : Leads interpreter limits source rows m) :
    ShowsPart interpreter limits source rows := by
  obtain ⟨code, n, sights, hcompile, hruns, hrows⟩ := h
  rw [ShowsPart, hcompile]
  exact ⟨n, sights, m, hruns, hrows⟩

/-- A whole run that is shown is a part of it. -/
theorem ShowsAll.showsPart (h : ShowsAll interpreter limits source rows) :
    ShowsPart interpreter limits source rows := by
  obtain ⟨code, sights, m, hcompile, ⟨n, m₁, hruns, -⟩, hrows⟩ := h
  rw [ShowsPart, hcompile]
  exact ⟨n, sights, m₁, hruns, hrows⟩

/-- More of a run that shows no line. -/
theorem Leads.quiet {n : Nat} {quiet : List Sight} (h : Leads interpreter limits source rows m)
    (hruns : m.Runs n quiet m') (hquiet : Sight.views quiet = []) :
    Leads interpreter limits source rows m' := by
  obtain ⟨code, k, sights, hcompile, hfirst, hrows⟩ := h
  refine ⟨code, k + n, sights ++ quiet, hcompile, hfirst.trans hruns, ?_⟩
  rw [Sight.views_append, hquiet, List.append_nil, hrows]

/-- The next line of a run. -/
theorem Leads.line {line : Line} (h : Leads interpreter limits source rows m)
    (hstep : m.step = .atLine line m') :
    Leads interpreter limits source (rows ++ [Snapshot.row limits (m'.view line)]) m' := by
  obtain ⟨code, k, sights, hcompile, hfirst, rfl⟩ := h
  exact ⟨code, k + 1, _, hcompile, hfirst.concat hstep, by simp⟩

/-- The end of a run. -/
theorem Leads.finish (h : Leads interpreter limits source rows m)
    (hstep : m.step = .finished m') : ShowsAll interpreter limits source rows := by
  obtain ⟨code, k, sights, hcompile, hfirst, rfl⟩ := h
  exact ⟨code, sights, m', hcompile, ⟨k, m, hfirst, by rw [hstep]; rfl⟩, rfl⟩

/-- It does not matter to where a session stands what else becomes of it. -/
theorem StandsAt.of_same {line : Line} (h : session.StandsAt interpreter source rows line)
    (hlimits : after.limits = session.limits) (hstate : after.state = session.state)
    (hexecution : after.execution = session.execution) :
    after.StandsAt interpreter source rows line := by
  refine ⟨hstate.trans h.state, ?_⟩
  rw [hexecution, hlimits]
  exact h.leads

/-- Loading the interpreter changes nothing that matters to what is shown. -/
theorem Tracks.of_same (h : Tracks interpreter session rows wish state requests responses)
    (hlimits : after.limits = session.limits) (hstate : after.state = session.state)
    (hexecution : after.execution = session.execution) :
    Tracks interpreter after rows wish state requests responses := by
  cases h with
  | unstarted h => exact .unstarted h
  | starting => exact .starting
  | continuing h => exact .continuing (h.of_same hlimits hstate hexecution)
  | arriving h hrows => exact .arriving (h.of_same hlimits hstate hexecution) (hlimits ▸ hrows)
  | finishing h => exact .finishing (hlimits ▸ h)
  | failing h => exact .failing (hlimits ▸ h)
  | paused h => exact .paused (h.of_same hlimits hstate hexecution)
  | finished h => exact .finished (hlimits ▸ h)
  | errored h => exact .errored (hlimits ▸ h)

/-- A control that the user touches. -/
theorem Tracks.control (h : Tracks interpreter session rows wish state requests responses)
    (breakpoints : Breakpoints) (mode : RunMode) (source : String) :
    Tracks interpreter session
      (Effect.rowsAfter (state.transition breakpoints (mode.input source)).2 rows)
      (state.wish source mode wish) (state.transition breakpoints (mode.input source)).1
      (requests ++ asks breakpoints state (mode.input source)) responses := by
  cases h with
  | unstarted hstate =>
    rcases hstate with rfl | rfl | rfl
    · cases mode <;> exact .unstarted (.inl rfl)
    · cases mode <;> exact .unstarted (.inr (.inl rfl))
    · cases mode <;> exact .starting
  | starting => cases mode <;> exact .starting
  | continuing h => cases mode <;> exact .continuing h
  | arriving h hrows => cases mode <;> exact .arriving h hrows
  | finishing h => cases mode <;> exact .finishing h
  | failing h => cases mode <;> exact .failing h
  | @paused rows wish line h => cases mode <;> exact .continuing h
  | finished h => cases mode <;> exact .finished h
  | errored h =>
    -- A run may start again after an error, but not step by step.
    cases mode with
    | run => exact .starting
    | step => exact .errored h

/-- A line is only told of while the controller waits for it in the mode that the user has asked
    for. -/
theorem Tracks.exists_wish {line : Line} {scope : Bindings String}
    (h : Tracks interpreter session rows wish state requests
      (.lineExecuted line scope :: responses)) :
    ∃ asked, wish = some asked ∧ state = .awaitingPause asked.mode := by
  cases h with
  | arriving => exact ⟨_, rfl, rfl⟩

/-- A response that arrives. -/
theorem Tracks.respond {response : Event}
    (h : Tracks interpreter session rows wish state requests (response :: responses))
    (breakpoints : Breakpoints) :
    Tracks interpreter session
      (Effect.rowsAfter (state.transition breakpoints (.event response)).2 rows) wish
      (state.transition breakpoints (.event response)).1
      (requests ++ asks breakpoints state (.event response)) responses := by
  cases h with
  | finishing h => exact .finished h
  | failing h => exact .errored h
  | @arriving rows wish line scope h _ =>
    rw [asks, ControllerState.transition, ControllerState.receive, ControllerState.arrive]
    by_cases hstops : wish.mode.stopsAt line breakpoints = true
    · rw [if_pos hstops]
      exact .paused h
    · rw [if_neg hstops]
      exact .continuing h

/-- Any other event. -/
theorem Tracks.notice {event : Event}
    (h : Tracks interpreter session rows wish state requests responses) (breakpoints : Breakpoints)
    (hevent : event.isResponse = false) :
    Tracks interpreter session
      (Effect.rowsAfter (state.transition breakpoints (.event event)).2 rows) wish
      (state.transition breakpoints (.event event)).1
      (requests ++ asks breakpoints state (.event event)) responses := by
  have hsame : Tracks interpreter session rows wish state (requests ++ []) responses := by
    rwa [List.append_nil]
  cases event with
  | output text => exact hsame
  | ready =>
    cases state with
    | loading => cases h; exact .unstarted (.inr (.inr rfl))
    | _ => exact hsame
  | loadFailed message =>
    cases state with
    | loading => cases h; exact .unstarted (.inr (.inl rfl))
    | _ => exact hsame
  | _ => cases hevent

/-- What a session tells of a stretch has one response, which fits the rows shown so far. -/
theorem Advances.tracks {told : List Event} (h : session.Advances m told after) {wish : Wish}
    (hleads : Leads interpreter session.limits wish.source rows m) :
    ∃ response, told.filter Event.isResponse = [response] ∧
      Tracks interpreter after rows (some wish) (.awaitingPause wish.mode) [] [response] := by
  obtain ⟨hruns, hquiet, hreports⟩ := h
  rw [List.filter_append, filter_outputs, List.nil_append]
  have hleads := hleads.quiet hruns hquiet
  cases hreports with
  | @line line m' hstep hfits =>
    refine ⟨_, rfl, .arriving ⟨?_, m', ?_, ?_⟩ hleads.showsPart⟩
    · rw [Machine.line_view]
    · rw [Machine.line_view]
    · exact hleads.line hstep
  | finished hstep => exact ⟨_, rfl, .finishing (hleads.finish hstep)⟩
  | faulted hstep => exact ⟨_, rfl, .failing hleads.showsPart⟩
  | tooLarge hstep hlarge hfailure hends =>
    rw [List.filter_cons_of_pos rfl, filter_outputs]
    exact ⟨_, rfl, .failing hleads.showsPart⟩

/-- A request that is taken. -/
theorem Tracks.take {command : Command} {fuel : Nat} {told : Array Event}
    (h : Tracks interpreter session rows wish state (command :: requests) responses)
    (hopen : session.isOpen = true) (hready : session.interpreter = .ok interpreter)
    (hreceive : session.receive fuel command.encode = some (after, told)) :
    session.Continues after ∧ Tracks interpreter after rows wish state requests
      (responses ++ told.toList.filter Event.isResponse) := by
  -- There is a request under way only where a start or a request to go on has been sent.
  cases h with
  | @starting wish =>
    obtain ⟨loaded, texts, new, hcontinues, htold, ⟨fault, hcompile, rfl, rfl, -⟩ |
      ⟨code, hcompile, hadvances⟩⟩ :=
      receive_startExecution hopen hready (Command.decode_encode _) hreceive
    · rw [htold, List.filter_append, filter_outputs]
      refine ⟨hcontinues, .failing ?_⟩
      rw [ShowsPart, hcompile]
    · have hleads : Leads interpreter loaded.limits wish.source []
          (.start code interpreter.maxCallDepth) := ⟨code, 0, [], hcompile, .refl _, rfl⟩
      obtain ⟨response, hresponse, htracks⟩ := hadvances.tracks hleads
      rw [htold, List.filter_append, filter_outputs, List.nil_append, hresponse]
      exact ⟨hcontinues.trans hadvances.continues, htracks⟩
  | @continuing rows wish line h =>
    obtain ⟨m, hexecution, hleads⟩ := h.leads
    have hstate : session.state.canContinue = true := by rw [h.state]; rfl
    have hadvances := receive_continueExecution hopen hstate hexecution ⟨rfl, rfl⟩
      (Command.decode_encode _) hreceive
    obtain ⟨response, hresponse, htracks⟩ := hadvances.tracks hleads
    rw [hresponse]
    exact ⟨hadvances.continues, htracks⟩

theorem StandsAt.showsPart {line : Line} (h : session.StandsAt interpreter source rows line) :
    ShowsPart interpreter session.limits source rows := by
  obtain ⟨m, -, hleads⟩ := h.leads
  exact hleads.showsPart

/-- What is shown fits what the user has asked for, and is all of it in the end. -/
theorem Tracks.shows (h : Tracks interpreter session rows wish state requests responses) :
    ShowsFor interpreter session.limits wish rows ∧ (state = .finished → ∃ asked,
      wish = some asked ∧ ShowsAll interpreter session.limits asked.source rows) := by
  cases h with
  | unstarted hstate => exact ⟨rfl, by rintro rfl; simp at hstate⟩
  | starting => exact ⟨showsPart_nil .., nofun⟩
  | continuing h => exact ⟨h.showsPart, nofun⟩
  | arriving _ hrows => exact ⟨hrows, nofun⟩
  | finishing h => exact ⟨h.showsPart, nofun⟩
  | failing h => exact ⟨h, nofun⟩
  | paused h => exact ⟨h.showsPart, nofun⟩
  | finished h => exact ⟨h.showsPart, fun _ => ⟨_, rfl, h⟩⟩
  | errored h => exact ⟨h, nofun⟩

end Session

end Linewise
