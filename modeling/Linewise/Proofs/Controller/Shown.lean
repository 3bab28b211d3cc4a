import Linewise.Proofs.Controller.Protocol
import Linewise.Proofs.Controller.Tracking

/-!
# What a debugger shows of a run

However far the user asks a run to go on, and whatever happens to the breakpoints meanwhile, the
debugger shows the variables of the same lines: those of the run, in its order, and all of them
once it has finished. After each of them it stops if the user has asked for the next line or if
there is a breakpoint on this one, and else asks the worker to go on (`Debugger.Follows.shows_run`).

What is shown can be read off a surface that records all changes to it (`Recording.shown`).
-/

namespace Linewise

open Wire (Command Event)

/-- The rows of variables that have been shown since the variables were cleared. -/
def Recording.shown (recording : Recording) : List Row :=
  recording.updates.foldl Update.rows []

theorem Recording.shown_update (change : Update) (recording : Recording) :
    (Recording.surface.update change recording).shown = Update.rows recording.shown change :=
  Array.foldl_push

/-- The rows that are shown follow the changes one by one. -/
theorem Recording.shown_foldl (changes : List Update) (recording : Recording) :
    (changes.foldl (fun state change => Recording.surface.update change state) recording).shown =
      changes.foldl Update.rows recording.shown := by
  induction changes generalizing recording with
  | nil => rfl
  | cons change changes ih => rw [List.foldl_cons, ih, shown_update, List.foldl_cons]

namespace Debugger

/-- The mode that an action asks for. -/
def mode? : Action → Option RunMode
  | .run => some .run
  | .step => some .step
  | .reset | .addBreakpoint _ | .removeBreakpoint _ | .listBreakpoints | .quit => none

/-- What the user has asked for after an action. -/
def wishAfter (d : Debugger Recording) (wish : Option Wish) (action : Action) : Option Wish :=
  match mode? action with
  | some mode => d.state.wish d.surface.source mode wish
  | none => wish

/-- The states that a debugger can come to without a reset, each with what the user has asked for
    last. -/
inductive Follows (crew : Crew) (breakpoints : Breakpoints) (source : String) :
    Debugger Recording → Option Wish → Prop
  | new : Follows crew breakpoints source
      (.new Recording.surface crew breakpoints (.new source)) none
  | act {d : Debugger Recording} {wish : Option Wish} {action : Action}
      (h : Follows crew breakpoints source d wish) (hreset : action ≠ .reset) :
      Follows crew breakpoints source (Controller.act (desk Recording.surface) d action)
        (d.wishAfter wish action)
  /-- The user changes the text in the editor. -/
  | edit {d : Debugger Recording} {wish : Option Wish} (text : String)
      (h : Follows crew breakpoints source d wish) :
      Follows crew breakpoints source { d with surface := { d.surface with source := text } } wish
  /-- The worker does what it was asked next, as far as it takes. -/
  | work {d : Debugger Recording} {wish : Option Wish} {worker worker' : Worker} {fuel : Nat}
      (h : Follows crew breakpoints source d wish) (hpresent : d.workers.present = some worker)
      (hwork : worker.work fuel = some worker') :
      Follows crew breakpoints source (d.withWorker worker') wish
  /-- The controller takes the next message of the worker. -/
  | deliver {d d' : Debugger Recording} {wish : Option Wish}
      (h : Follows crew breakpoints source d wish)
      (hdeliver : d.deliver? Recording.surface = some d') :
      Follows crew breakpoints source d' wish

variable {crew : Crew} {breakpoints : Breakpoints} {source : String} {interpreter : Interpreter}
  {limits : SnapshotLimits} {d d' : Debugger Recording} {wish : Option Wish} {session : Session}
  {commands : List Command} {events : List Event}

/-! ## Changes to the surface -/

/-- The surface takes the changes among some effects, as long as the worker stays. -/
theorem Talks.surface_perform {υ : Type} {d : Debugger υ} (surface : Surface υ)
    {effects : List Effect} (h : d.Talks session commands events)
    (hstays : .replaceWorker ∉ effects) :
    (Controller.perform (desk surface) effects d).surface =
      (effects.filterMap Effect.update?).foldl (fun state change => surface.update change state)
        d.surface := by
  induction effects generalizing d commands with
  | nil => rfl
  | cons effect effects ih =>
    rw [List.mem_cons, not_or] at hstays
    obtain ⟨hne, hstays⟩ := hstays
    cases effect with
    | update change => exact ih (h.update surface change) hstays
    | replaceWorker => exact absurd rfl hne
    | send command =>
      obtain ⟨crew, hsend, hafter⟩ := h.send surface command
      rw [Controller.perform, hsend]
      exact ih hafter hstays

/-- The rows shown after an input. -/
theorem Talks.shown_apply {input : Input} (h : d.Talks session commands events)
    (hinput : input ≠ .reset) :
    (Controller.apply (desk Recording.surface) input d).surface.shown =
      Effect.rowsAfter (d.state.transition d.breakpoints input).2 d.surface.shown := by
  have hnext : Talks { d with state := (d.state.transition d.breakpoints input).1 } session commands
      events := ⟨h.present, h.listens, h.isOpen⟩
  have hstays : .replaceWorker ∉ (d.state.transition d.breakpoints input).2 :=
    replaceWorker_notMem_transition hinput
  have hperform := hnext.surface_perform Recording.surface hstays
  rw [Effect.rowsAfter, ← Recording.shown_foldl, ← hperform]
  exact Recording.shown_update _ _

/-- The rows shown after an event. -/
theorem Talks.shown_afterEvent {event : Event} {rest : List Event}
    (h : d.Talks session commands (event :: rest)) :
    (Debugger.afterEvent Recording.surface d session commands event rest).surface.shown =
      Effect.rowsAfter (d.state.transition d.breakpoints (.event event)).2 d.surface.shown := by
  have hrest : Talks (d.withWorker ⟨session, commands.map Command.encode,
      rest.map session.enveloped⟩) session commands rest := ⟨rfl, h.listens, h.isOpen⟩
  exact hrest.shown_apply nofun

/-! ## Mirrors of a run -/

/-- The debugger shows the run that its worker has come to. -/
structure Mirrors (interpreter : Interpreter) (limits : SnapshotLimits) (d : Debugger Recording)
    (wish : Option Wish) (session : Session) (commands : List Command) (events : List Event) :
    Prop where
  talks : d.Talks session commands events
  ready : session.interpreter = .ok interpreter
  limits_eq : session.limits = limits
  tracks : Session.Tracks interpreter session d.surface.shown wish d.state
    (commands.filter Command.isRequest) (events.filter Event.isResponse)

/-- Breakpoints and the text in the editor do not matter. -/
theorem Mirrors.of_same (h : Mirrors interpreter limits d wish session commands events)
    (hstate : d'.state = d.state) (hsession : d'.session = d.session)
    (hworkers : d'.workers = d.workers) (hshown : d'.surface.shown = d.surface.shown) :
    Mirrors interpreter limits d' wish session commands events := by
  refine ⟨⟨?_, ?_, h.talks.isOpen⟩, h.ready, h.limits_eq, ?_⟩
  · rw [hworkers, h.talks.present]
  · rw [hsession, h.talks.listens]
  · rw [hstate, hshown]
    exact h.tracks

/-- The debugger shows the run of its worker also after one of the controls has been used, enabled
    or not. -/
theorem Mirrors.control (h : Mirrors interpreter limits d wish session commands events)
    (mode : RunMode) (text : String) :
    ∃ commands', Mirrors interpreter limits
      (Controller.apply (desk Recording.surface) (mode.input text) d)
      (d.state.wish text mode wish) session commands' events := by
  have hinput : mode.input text ≠ .reset := by cases mode <;> exact nofun
  obtain ⟨htalks, hstate⟩ := h.talks.apply Recording.surface hinput
  refine ⟨_, htalks, h.ready, h.limits_eq, ?_⟩
  rw [hstate, h.talks.shown_apply hinput, List.filter_append]
  exact h.tracks.control d.breakpoints mode text

/-- The debugger shows the run of its worker also after an action of the user, with what the user
    asks for by it. -/
theorem Mirrors.act (h : Mirrors interpreter limits d wish session commands events)
    {action : Action} (hreset : action ≠ .reset) :
    ∃ commands', Mirrors interpreter limits
      (Controller.act (desk Recording.surface) d action) (d.wishAfter wish action) session commands'
      events := by
  cases action with
  | run => exact h.control .run d.surface.source
  | step => exact h.control .step d.surface.source
  | reset => exact absurd rfl hreset
  | addBreakpoint text =>
    refine ⟨commands, ?_⟩
    rw [Controller.act, Controller.addBreakpoint]
    cases Breakpoints.line? text with
    | none => exact h
    | some line => exact h.of_same rfl rfl rfl (Recording.shown_update _ _)
  | removeBreakpoint line =>
    exact ⟨commands, h.of_same rfl rfl rfl (Recording.shown_update _ _)⟩
  | listBreakpoints => exact ⟨commands, h.of_same rfl rfl rfl (Recording.shown_update _ _)⟩
  | quit => exact ⟨commands, h⟩

/-- The debugger shows the run of its worker also after the worker has taken its next text. What it
    shows does not change by that: the new events wait to be taken. -/
theorem Mirrors.work {worker worker' : Worker} {fuel : Nat}
    (h : Mirrors interpreter limits d wish session commands events)
    (hpresent : d.workers.present = some worker) (hwork : worker.work fuel = some worker') :
    ∃ session' commands' events',
      Mirrors interpreter limits (d.withWorker worker') wish session' commands' events' := by
  rcases h.talks.work hpresent hwork with ⟨rfl, rfl⟩ |
    ⟨command, rest, after, new, rfl, hreceive, -, htalks⟩
  · refine ⟨session, [], events, h.of_same rfl rfl ?_ rfl⟩
    rw [withWorker, ← hpresent]
  · refine ⟨after, rest, events ++ new.toList, ?_⟩
    have htracks := h.tracks
    -- A command to load the interpreter does nothing to the run and gets no response.
    by_cases hrequest : command.isRequest = true
    · rw [List.filter_cons_of_pos hrequest] at htracks
      obtain ⟨hcontinues, htracks⟩ := htracks.take h.talks.isOpen h.ready hreceive
      refine ⟨htalks hcontinues, hcontinues.interpreter.trans h.ready,
        hcontinues.limits.trans h.limits_eq, ?_⟩
      rwa [List.filter_append]
    · obtain rfl : command = .load := by
        cases command with
        | load => rfl
        | _ => exact absurd rfl hrequest
      obtain ⟨hcontinues, hstate, hexecution, texts, notice, hnew, hnotice⟩ :=
        Session.receive_load h.talks.isOpen hreceive
      refine ⟨htalks hcontinues, hcontinues.interpreter.trans h.ready,
        hcontinues.limits.trans h.limits_eq, ?_⟩
      have hquiet : [notice].filter Event.isResponse = [] := by
        rcases hnotice with ⟨rfl, -⟩ | ⟨message, rfl⟩ <;> rfl
      rw [List.filter_append, hnew, List.filter_append, Session.filter_outputs, hquiet,
        List.append_nil, List.append_nil]
      exact htracks.of_same hcontinues.limits hstate hexecution

/-- The debugger shows the run of its worker also after the controller has taken the next event. -/
theorem Mirrors.deliver {event : Event} {rest : List Event}
    (h : Mirrors interpreter limits d wish session commands (event :: rest)) :
    ∃ commands', Mirrors interpreter limits
      (afterEvent Recording.surface d session commands event rest) wish session commands' rest := by
  obtain ⟨htalks, hstate⟩ := h.talks.afterEvent Recording.surface
  refine ⟨_, htalks, h.ready, h.limits_eq, ?_⟩
  have htracks := h.tracks
  rw [hstate, h.talks.shown_afterEvent, List.filter_append]
  by_cases hresponse : event.isResponse = true
  · rw [List.filter_cons_of_pos hresponse] at htracks
    exact htracks.respond d.breakpoints
  · rw [List.filter_cons_of_neg hresponse] at htracks
    exact htracks.notice d.breakpoints (Bool.eq_false_iff.2 hresponse)

/-- The debugger shows the run of its worker in every state that it can come to. -/
theorem Follows.mirrors (h : Follows crew breakpoints source d wish)
    (hloader : crew.loader = .ok interpreter) :
    ∃ session commands events,
      Mirrors interpreter crew.limits d wish session commands events := by
  -- One case for each kind of step, which has its own lemma.
  induction h with
  | new =>
    obtain ⟨htalks, hstate⟩ := talks_new Recording.surface crew breakpoints (.new source)
    refine ⟨_, _, _, htalks, hloader, rfl, ?_⟩
    rw [hstate]
    exact .unstarted (.inl rfl)
  | act _ hreset ih =>
    obtain ⟨session, commands, events, h⟩ := ih
    obtain ⟨commands', h⟩ := h.act hreset
    exact ⟨session, commands', events, h⟩
  | edit text _ ih =>
    obtain ⟨session, commands, events, h⟩ := ih
    exact ⟨session, commands, events, h.of_same rfl rfl rfl rfl⟩
  | work _ hpresent hwork ih =>
    obtain ⟨session, commands, events, h⟩ := ih
    exact h.work hpresent hwork
  | deliver _ hdeliver ih =>
    obtain ⟨session, commands, events, h⟩ := ih
    cases events with
    | nil =>
      rw [h.talks.deliver?_nil Recording.surface] at hdeliver
      cases hdeliver
    | cons event rest =>
      obtain rfl :=
        Option.some.inj ((h.talks.deliver?_cons Recording.surface).symm.trans hdeliver)
      obtain ⟨commands', h⟩ := h.deliver
      exact ⟨session, commands', rest, h⟩

/-! ## Run and step show the same run -/

/-- What becomes of the row that is shown for a line, and of the request that has led to it: the
    debugger stops on the line as the user has asked, or else sends one request to go on. -/
structure Arrives (d d' : Debugger Recording) (wish : Wish) (line : Line)
    (scope : Bindings String) : Prop where
  shown : d'.surface.shown = d.surface.shown ++ [(line, scope)]
  stops : d'.state = .paused line ↔ wish.mode = .step ∨ line ∈ d.breakpoints
  sent : ∃ worker worker', d.workers.present = some worker ∧ d'.workers.present = some worker' ∧
    worker'.inbox = worker.inbox ++
      if d'.state = .paused line then [] else [Command.continueExecution.encode]

/-- An event shows no row, or one that the debugger does as the user has asked about. -/
theorem Mirrors.arrives {event : Event} {rest : List Event}
    (h : Mirrors interpreter limits d wish session commands (event :: rest)) :
    (afterEvent Recording.surface d session commands event rest).surface.shown = d.surface.shown ∨
      ∃ asked line scope, wish = some asked ∧
        Arrives d (afterEvent Recording.surface d session commands event rest) asked line
          scope := by
  obtain ⟨htalks, hstate⟩ := h.talks.afterEvent Recording.surface
  have hshown := h.talks.shown_afterEvent
  -- Only the event of a line shows a row.
  by_cases hline : ∃ line scope, event = .lineExecuted line scope
  · obtain ⟨line, scope, rfl⟩ := hline
    have htracks := h.tracks
    rw [List.filter_cons_of_pos rfl] at htracks
    obtain ⟨asked, rfl, hawaiting⟩ := htracks.exists_wish
    refine .inr ⟨asked, line, scope, rfl, ?_⟩
    rw [hawaiting, ControllerState.transition, ControllerState.receive,
      ControllerState.arrive] at htalks hstate hshown
    -- The line was asked for, so it is where the user wants to stop or one to go on from.
    by_cases hstops : asked.mode.stopsAt line d.breakpoints = true
    · rw [if_pos hstops] at htalks hstate hshown
      refine ⟨hshown, ?_, _, _, h.talks.present, htalks.present, ?_⟩
      · rw [hstate, ← RunMode.stopsAt_iff, hstops]
        simp
      · rw [if_pos hstate, List.map_append]
        rfl
    · rw [if_neg hstops] at htalks hstate hshown
      refine ⟨hshown, ?_, _, _, h.talks.present, htalks.present, ?_⟩
      · rw [hstate, ← RunMode.stopsAt_iff]
        simp [hstops]
      · rw [if_neg (by rw [hstate]; rintro ⟨⟩), List.map_append]
        rfl
  · have hother : ∀ line scope, event ≠ .lineExecuted line scope :=
      fun line scope heq => hline ⟨line, scope, heq⟩
    exact .inl (hshown.trans (ControllerState.rowsAfter_receive hother ..))

/-- However a run is gone on with, a debugger shows the variables of its lines, in the order of the
    run, and of all of them once it has finished. Each event shows nothing, or the variables of one
    line, at which the debugger stops exactly if the user has asked for the next line or there is a
    breakpoint, and else sends one request to go on. -/
theorem Follows.shows_run (h : Follows crew breakpoints source d wish)
    (hloader : crew.loader = .ok interpreter) :
    Session.ShowsFor interpreter crew.limits wish d.surface.shown ∧
    (d.state = .finished → ∃ asked, wish = some asked ∧
      Session.ShowsAll interpreter crew.limits asked.source d.surface.shown) ∧
    ∀ d', d.deliver? Recording.surface = some d' → d'.surface.shown = d.surface.shown ∨
      ∃ asked line scope, wish = some asked ∧ Arrives d d' asked line scope := by
  obtain ⟨session, commands, events, h⟩ := h.mirrors hloader
  have htracks := h.tracks.shows
  rw [h.limits_eq] at htracks
  refine ⟨htracks.1, htracks.2, fun d' hdeliver => ?_⟩
  cases events with
  | nil =>
    rw [h.talks.deliver?_nil Recording.surface] at hdeliver
    cases hdeliver
  | cons event rest =>
    obtain rfl := Option.some.inj ((h.talks.deliver?_cons Recording.surface).symm.trans hdeliver)
    exact h.arrives

/-- The small debugger comes to wait for the user. -/
theorem exists_follows_idle : ∃ d, Follows smallCrew .empty "pass" d none ∧ d.state = .idle ∧
    d.surface.source = "pass" ∧ d.Talks loadedSession [] [] := by
  obtain ⟨htalks, -⟩ := talks_new Recording.surface smallCrew .empty (.new "pass")
  have hnew : Follows smallCrew .empty "pass" _ none := .new
  have hreceive : smallSession.receive 0 Command.load.encode =
      some (loadedSession, loadEvents.toArray) := by
    rw [Session.receive, Command.decode_encode]
    rfl
  have hwork : Worker.work 0 ⟨smallSession, [Command.load.encode], []⟩ =
      some ⟨loadedSession, [], loadEvents.map loadedSession.enveloped⟩ := by
    rw [Worker.work]
    simp only [hreceive]
    rfl
  have hloaded := hnew.work htalks.present hwork
  have htalks₀ : ((new Recording.surface smallCrew .empty (.new "pass")).withWorker
      ⟨loadedSession, [], loadEvents.map loadedSession.enveloped⟩).Talks loadedSession []
        loadEvents := ⟨rfl, rfl, rfl⟩
  have hfirst := hloaded.deliver (htalks₀.deliver?_cons Recording.surface)
  have htalks₁ := (htalks₀.afterEvent Recording.surface).1
  have hsecond := hfirst.deliver (htalks₁.deliver?_cons Recording.surface)
  have htalks₂ := (htalks₁.afterEvent Recording.surface).1
  have hthird := hsecond.deliver (htalks₂.deliver?_cons Recording.surface)
  have htalks₃ := (htalks₂.afterEvent Recording.surface).1
  exact ⟨_, hthird, rfl, rfl, htalks₃⟩

/-- The small debugger comes to be told of the first line after the user has asked for one. -/
theorem exists_follows_line : ∃ d session,
    Follows smallCrew .empty "pass" d (some ⟨"pass", .step⟩) ∧ d.state = .awaitingPause .step ∧
      d.Talks session [] [.lineExecuted 1 .empty] := by
  obtain ⟨d, hfollows, hstate, hsource, htalks⟩ := exists_follows_idle
  obtain ⟨hstart, hnext⟩ := htalks.apply Recording.surface (nofun : Input.step "pass" ≠ .reset)
  rw [hstate] at hstart hnext
  have hact : Follows smallCrew .empty "pass" (Controller.act (desk Recording.surface) d .step)
      (d.wishAfter none .step) := hfollows.act nofun
  have hwish : d.wishAfter none .step = some ⟨"pass", .step⟩ := by
    rw [wishAfter, mode?, hstate, hsource]
    rfl
  have hstep : Controller.act (desk Recording.surface) d .step =
      Controller.apply (desk Recording.surface) (.step "pass") d := by
    rw [← hsource]
    rfl
  rw [hwish, hstep] at hact
  -- The worker comes to the first line in one step.
  obtain ⟨execution, hreceive⟩ : ∃ execution,
      loadedSession.receive 1 (Command.startExecution "pass").encode =
        some ({ loadedSession with execution := some execution, state := .paused 1 },
          #[.lineExecuted 1 .empty]) := by
    rw [Session.receive, Command.decode_encode]
    exact ⟨_, rfl⟩
  let after : Session := { loadedSession with execution := some execution, state := .paused 1 }
  have hwork : Worker.work 1 ⟨loadedSession, [(Command.startExecution "pass").encode], []⟩ =
      some ⟨after, [], [after.enveloped (.lineExecuted 1 .empty)]⟩ := by
    rw [Worker.work]
    simp only [hreceive]
    rfl
  exact ⟨_, after, hact.work hstart.present hwork, hnext, rfl, hstart.listens, rfl⟩

/-- The small debugger shows the first line of its script and stops there, as the user has asked for
    one line. -/
theorem shows_first_line : ∃ d d' line scope,
    Follows smallCrew .empty "pass" d (some ⟨"pass", .step⟩) ∧
      d.deliver? Recording.surface = some d' ∧ Arrives d d' ⟨"pass", .step⟩ line scope ∧
        d'.state = .paused line := by
  obtain ⟨d, session, hfollows, hstate, htalks⟩ := exists_follows_line
  have hdeliver := htalks.deliver?_cons Recording.surface
  obtain ⟨-, -, harrives⟩ := hfollows.shows_run rfl
  rcases harrives _ hdeliver with hsame | ⟨asked, line, scope, hasked, harrives⟩
  · have hshown := htalks.shown_afterEvent
    rw [hsame, hstate] at hshown
    have hlength := congrArg List.length hshown
    simp [ControllerState.transition, ControllerState.receive, ControllerState.arrive,
      RunMode.stopsAt, Effect.rowsAfter, Effect.update?, Effect.say, Update.rows] at hlength
  · cases hasked
    exact ⟨d, _, line, scope, hfollows, hdeliver, harrives, harrives.stops.2 (.inl rfl)⟩

end Debugger

end Linewise
