import Linewise.Proofs.Controller.Driving
import Linewise.Proofs.Controller.Log
import Linewise.Proofs.Machine.Transparency

/-!
# Runs without a user

Without a user a script is run through all breakpoints (`Debugger.toCompletion`). Its texts come
into the log in the order in which they are printed, with the pauses among them
(`Debugger.drive_toCompletion`).

The controller takes no message after the one that tells how the run ended. A worker tells of a
normal end and of a fault last, but of a line that is too large to be reported it tells before it
goes on with the run. So the log ends there (`Logged.tooLarge`), and the texts of the rest are not
in it (`Debugger.not_forall_texts_logged`).
-/

namespace Linewise

open Wire (Command Event)

/-- The run of a script comes to its end, having shown some sights. A script that is refused shows
    none. -/
inductive Interpreter.Concludes (interpreter : Interpreter) (source : String) :
    List Sight → Outcome → Prop
  | refused {fault : Fault} (hcompile : interpreter.compile source = .error fault) :
      Concludes interpreter source [] (.faulted fault)
  | ended {code : Code} {sights : List Sight} {outcome : Outcome} {m : Machine}
      (hcompile : interpreter.compile source = .ok code)
      (hends : Machine.Ends (.start code interpreter.maxCallDepth) sights outcome m) :
      Concludes interpreter source sights outcome

/-- What a run through all breakpoints adds to the log, and the state that the controller is left
    in. -/
inductive Logged (limits : SnapshotLimits) (breakpoints : Breakpoints) :
    List Sight → Outcome → List String → ControllerState → Prop
  | text {text : String} {rest : List Sight} {outcome : Outcome} {log : List String}
      {state : ControllerState} (h : Logged limits breakpoints rest outcome log state) :
      Logged limits breakpoints (.text text :: rest) outcome (text :: log) state
  /-- A pause is announced, though the run goes on from it at once. -/
  | line {view : FrameView} {rest : List Sight} {outcome : Outcome} {log : List String}
      {state : ControllerState} (hfits : Snapshot.Fits limits view)
      (h : Logged limits breakpoints rest outcome log state) :
      Logged limits breakpoints (.line view :: rest) outcome
        ((if view.line ∈ breakpoints then [pauseText view.line] else []) ++ log) state
  | finished : Logged limits breakpoints [] .finished [finishText] .finished
  | faulted (fault : Fault) :
      Logged limits breakpoints [] (.faulted fault) [errorText fault.text] .errored
  /-- The rest of the run does not come into the log. -/
  | tooLarge {view : FrameView} {failure : TraceFailure} (rest : List Sight) (outcome : Outcome)
      (hfailure : Snapshot.capture limits view = .error failure) :
      Logged limits breakpoints (.line view :: rest) outcome [errorText failure.text] .errored

namespace Logged

variable {limits : SnapshotLimits} {breakpoints : Breakpoints} {sights rest : List Sight}
  {outcome : Outcome} {log : List String} {state : ControllerState}

/-- Texts come into the log in front of what follows them. -/
theorem append_texts (texts : List String) (h : Logged limits breakpoints rest outcome log state) :
    Logged limits breakpoints (texts.map .text ++ rest) outcome (texts ++ log) state := by
  induction texts with
  | nil => exact h
  | cons text texts ih => exact .text ih

/-- What comes before a line that is too large is in the log, in its order. -/
theorem exists_told (h : Logged limits breakpoints sights outcome log state) :
    ∃ told lost, sights = told ++ lost ∧ (Sight.texts told).Sublist log ∧
      (lost = [] ∨ ∃ view rest, lost = .line view :: rest ∧ ¬Snapshot.Fits limits view) := by
  induction h with
  | @text text rest outcome log state _ ih =>
    obtain ⟨told, lost, rfl, hsublist, hlost⟩ := ih
    exact ⟨.text text :: told, lost, rfl, hsublist.cons_cons text, hlost⟩
  | @line view rest outcome log state _ _ ih =>
    obtain ⟨told, lost, rfl, hsublist, hlost⟩ := ih
    exact ⟨.line view :: told, lost, rfl, hsublist.trans (List.sublist_append_right _ _), hlost⟩
  | finished => exact ⟨[], [], rfl, List.nil_sublist _, .inl rfl⟩
  | faulted fault => exact ⟨[], [], rfl, List.nil_sublist _, .inl rfl⟩
  | @tooLarge view failure rest outcome hfailure =>
    exact ⟨[], .line view :: rest, rfl, List.nil_sublist _,
      .inr ⟨view, rest, rfl, Snapshot.not_fits_of_capture hfailure⟩⟩

/-- When no line is too large, all texts are in the log, in their order. -/
theorem texts_sublist (h : Logged limits breakpoints sights outcome log state)
    (hfits : ∀ view ∈ Sight.views sights, Snapshot.Fits limits view) :
    (Sight.texts sights).Sublist log := by
  obtain ⟨told, lost, rfl, hsublist, rfl | ⟨view, rest, rfl, hlarge⟩⟩ := h.exists_told
  · simpa using hsublist
  · exact absurd (hfits view (by simp)) hlarge

/-- There is one such log. -/
theorem unique {log' : List String} {state' : ControllerState}
    (h : Logged limits breakpoints sights outcome log state)
    (h' : Logged limits breakpoints sights outcome log' state') : log = log' ∧ state = state' := by
  induction h generalizing log' state' with
  | text _ ih =>
    cases h' with
    | text h' =>
      obtain ⟨rfl, rfl⟩ := ih h'
      exact ⟨rfl, rfl⟩
  | line hfits _ ih =>
    cases h' with
    | line _ h' =>
      obtain ⟨rfl, rfl⟩ := ih h'
      exact ⟨rfl, rfl⟩
    | tooLarge _ _ hfailure => exact absurd hfits (Snapshot.not_fits_of_capture hfailure)
  | finished => cases h'; exact ⟨rfl, rfl⟩
  | faulted fault => cases h'; exact ⟨rfl, rfl⟩
  | tooLarge rest outcome hfailure =>
    cases h' with
    | line hfits _ => exact absurd hfits (Snapshot.not_fits_of_capture hfailure)
    | tooLarge _ _ hfailure' =>
      cases hfailure.symm.trans hfailure'
      exact ⟨rfl, rfl⟩

end Logged

namespace Session

/-- A session that is sent a command goes on with a run from a machine. -/
def Pursues (session : Session) (command : Command) (m : Machine) : Prop :=
  ∃ started e, session.Continues started ∧ started.execution = some e ∧ e.machine = m ∧
    e.IsWatched ∧ ∀ fuel, session.receive fuel command.encode =
      (started.advance fuel #[]).map Reaction.reported

variable {session : Session} {m : Machine}

/-- A session that is paused goes on from where its run is suspended. -/
theorem pursues_continueExecution {line : Line}
    (hexecution : session.execution = some ⟨m, .paused line, true⟩)
    (hstate : session.state = .paused line) :
    session.Pursues Command.continueExecution m := by
  refine ⟨session, _, .refl session, hexecution, rfl, ⟨rfl, rfl⟩, fun fuel => ?_⟩
  rw [receive_of_decode (Command.decode_encode _), handle,
    proceed_eq_advance (by rw [hstate]; rfl)]

/-- A session with an interpreter goes on from the beginning of the script. -/
theorem pursues_startExecution {interpreter : Interpreter} {source : String} {code : Code}
    (hloaded : session.loaded = some (.ok interpreter))
    (hcompile : interpreter.compile source = .ok code) :
    session.Pursues (Command.startExecution source) (.start code interpreter.maxCallDepth) := by
  refine ⟨{ session with
    execution := some (.start code interpreter.maxCallDepth true), state := .idle }, _,
    ⟨rfl, rfl, rfl, rfl⟩, rfl, rfl, ⟨rfl, rfl⟩, fun fuel => ?_⟩
  rw [receive_of_decode (Command.decode_encode _), handle, start_of_compile hloaded hcompile]

/-- What there is to tell of a stretch is told of the command, with enough fuel. -/
theorem Pursues.receive {command : Command} {n : Nat} {quiet : List Sight} {m₁ : Machine}
    {events : List Event} {execution : Option Execution} {state : SessionState}
    (h : session.Pursues command m) (hopen : session.isOpen = true) (hruns : m.Runs n quiet m₁)
    (hquiet : Sight.views quiet = [])
    (hreports : Reports session.limits m₁ events execution state) :
    ∃ fuel after told, session.receive fuel command.encode = some (after, told) ∧
      told.toList = outputs (Sight.texts quiet) ++ events ∧ session.Continues after ∧
        after.execution = execution ∧ after.state = state := by
  obtain ⟨started, e, hcontinues, he, rfl, hwatched, hreceive⟩ := h
  rw [← hcontinues.limits] at hreports
  obtain ⟨fuel, hadvance⟩ := advance_of_advances (hcontinues.isOpen.trans hopen) he hwatched
    (.mk hruns hquiet hreports) #[]
  refine ⟨fuel, { started with execution, state },
    (#[] : Array Event) ++ (outputs (Sight.texts quiet) ++ events), ?_, ?_,
    hcontinues.trans ⟨rfl, rfl, rfl, rfl⟩, rfl, rfl⟩
  · rw [hreceive, hadvance fuel (Nat.le_refl fuel)]
    rfl
  · simp

end Session

/-- The texts in the log after an effect. -/
def Effect.logged (log : List String) : Effect → List String
  | .update .clearOutput => []
  | .update (.appendOutput text) => log ++ [text]
  | .update (.showVariables ..) | .update .clearVariables | .update (.showBreakpoints _)
  | .update (.setControls _) | .send _ | .replaceWorker => log

/-- A ledger notes the same texts. -/
theorem Ledger.map_text_perform (origin : Option Emission) (effects : List Effect)
    (ledger : Ledger) : (ledger.perform origin effects).log.map Chunk.text =
      effects.foldl Effect.logged (ledger.log.map Chunk.text) := by
  induction effects generalizing ledger with
  | nil => rfl
  | cons effect effects ih =>
    rw [perform, List.foldl_cons, ← perform, ih, List.foldl_cons]
    congr 1
    rcases effect with _ | _ | change
    · rfl
    · rfl
    · cases change <;> simp [enter, Update.chunks, Effect.logged]

/-- A run to completion waits only for workers that are listened to. -/
theorem ControllerState.isListening_of_wait {state : ControllerState}
    (h : Debugger.toCompletion state = .wait) : state.isListening = true := by
  cases state with
  | crashed => cases h
  | _ => rfl

namespace Debugger

variable {crew : Crew} {breakpoints : Breakpoints} {source : String} {d d' d₁ : Debugger Recording}
  {session after : Session} {commands : List Command} {events rest : List Event} {event : Event}
  {state : ControllerState} {log : List String} {input : Input} {fuel : Nat}

/-- A debugger at some point of a run: its breakpoints and the text in its editor, the session and
    the queues of its worker, the state of its controller and the texts in its log. -/
structure Stands (breakpoints : Breakpoints) (source : String) (d : Debugger Recording)
    (session : Session) (commands : List Command) (events : List Event) (state : ControllerState)
    (log : List String) : Prop where
  talks : d.Talks session commands events
  state : d.state = state
  breakpoints : d.breakpoints = breakpoints
  editor : d.surface.source = source
  output : d.surface.panels.output.toList = log

/-- After an input other than a reset the debugger stands where the transition says: its commands
    are on their way, and its texts are in the log. -/
theorem Stands.apply (h : Stands breakpoints source d session commands events state log)
    (hinput : input ≠ .reset) :
    Stands breakpoints source (Controller.apply (desk Recording.surface) input d) session
      (commands ++ (state.transition breakpoints input).2.filterMap Effect.command?) events
      (state.transition breakpoints input).1
      ((state.transition breakpoints input).2.foldl Effect.logged log) := by
  obtain ⟨htalks, rfl, rfl, rfl, rfl⟩ := h
  obtain ⟨hafter, hstate⟩ := htalks.apply Recording.surface hinput
  obtain ⟨hbreakpoints, hsource⟩ := perform_keeps (d.state.transition d.breakpoints input).2
    { d with state := (d.state.transition d.breakpoints input).1 }
  refine ⟨hafter, hstate, hbreakpoints, hsource, ?_⟩
  -- A ledger of the texts alone.
  have hshows : d.Shows ⟨0, 0, [], d.surface.panels.output.toList.map (⟨·, none⟩)⟩ := by
    simp [Shows, Function.comp_def]
  have hlog := hshows.apply htalks hinput none
  rw [Shows, Ledger.map_text_perform] at hlog
  simpa [Function.comp_def] using hlog

/-- A worker that has not been asked for anything settles at once. -/
theorem Stands.settle_nil (h : Stands breakpoints source d session [] events state log) :
    d.settle fuel = some d := by
  rw [settle, Crew.settle, h.talks.present]
  refine congrArg some ?_
  have hsame : { d.workers with
      present := some ⟨session, [].map Command.encode, events.map session.enveloped⟩ } =
        d.workers := by
    rw [← h.talks.present]
  exact congrArg (fun workers => { d with workers }) hsame

/-- A worker that has been asked for one thing settles when it has done it. -/
theorem Stands.settle {command : Command} {told : Array Event}
    (h : Stands breakpoints source d session [command] events state log)
    (hreceive : session.receive fuel command.encode = some (after, told))
    (hcontinues : session.Continues after) :
    ∃ d₁, d.settle fuel = some d₁ ∧
      Stands breakpoints source d₁ after [] (events ++ told.toList) state log := by
  obtain ⟨worker', hwork⟩ : ∃ worker', Worker.work fuel
      ⟨session, [command].map Command.encode, events.map session.enveloped⟩ = some worker' :=
    ⟨_, congrArg (Option.map _) hreceive⟩
  rcases h.talks.work h.talks.present hwork with ⟨hnone, -⟩ |
    ⟨command', rest, after', told', hcommands, hreceive', -, htalks⟩
  · cases hnone
  · obtain ⟨rfl, rfl⟩ := List.cons.inj hcommands
    obtain ⟨rfl, rfl⟩ := Prod.mk.inj (Option.some.inj (hreceive.symm.trans hreceive'))
    refine ⟨d.withWorker worker', ?_, htalks hcontinues, h.state, h.breakpoints, h.editor,
      h.output⟩
    have hsettle : Worker.settle fuel
        ⟨session, [command].map Command.encode, events.map session.enveloped⟩ = some worker' := by
      rw [Worker.settle, List.map_singleton, List.foldlM_cons]
      exact Option.bind_eq_some_iff.2 ⟨worker', hwork, rfl⟩
    rw [Debugger.settle, Crew.settle, h.talks.present]
    simp only [hsettle]
    rfl

/-- The next event leads the debugger to where the controller's transition says, with its effects
    performed. -/
theorem Stands.deliver
    (h : Stands breakpoints source d session commands (event :: rest) state log) :
    ∃ d', d.deliver? Recording.surface = some d' ∧
      Stands breakpoints source d' session
        (commands ++ (state.receive breakpoints event).2.filterMap Effect.command?) rest
        (state.receive breakpoints event).1
        ((state.receive breakpoints event).2.foldl Effect.logged log) := by
  have hrest : Stands breakpoints source (d.withWorker ⟨session, commands.map Command.encode,
      rest.map session.enveloped⟩) session commands rest state log :=
    ⟨⟨rfl, h.talks.listens, h.talks.isOpen⟩, h.state, h.breakpoints, h.editor, h.output⟩
  exact ⟨_, h.talks.deliver?_cons Recording.surface,
    hrest.apply (nofun : Input.event event ≠ .reset)⟩

/-- A worker that settles leaves the controller alone. -/
theorem state_of_settle (h : d.settle fuel = some d₁) : d₁.state = d.state := by
  obtain ⟨workers, -, rfl⟩ := Option.map_eq_some_iff.1 h
  rfl

/-! ## Events -/

/-- The controller waits for the next event. -/
theorem Stands.wait (h : Stands breakpoints source d₁ session [] (event :: rest) state log)
    (hwait : toCompletion state = .wait) (hsettle : d.settle fuel = some d₁) :
    ∃ d', GoesTo Recording.surface toCompletion d d' ∧
      Stands breakpoints source d' session
        ((state.receive breakpoints event).2.filterMap Effect.command?) rest
        (state.receive breakpoints event).1
        ((state.receive breakpoints event).2.foldl Effect.logged log) := by
  obtain ⟨d', hdeliver, hafter⟩ := h.deliver
  have hstate : d.state = state := (state_of_settle hsettle).symm.trans h.state
  rw [← hstate] at hwait
  exact ⟨d', goesTo_of_wait hwait (ControllerState.isListening_of_wait hwait) hsettle hdeliver,
    hafter⟩

/-- The controller waits for the texts that come next, which get into the log, and for the event
    after them. -/
theorem Stands.hear {texts : List String} (h : Stands breakpoints source d₁ session []
      (Session.outputs texts ++ event :: rest) state log)
    (hwait : toCompletion state = .wait) (hsettle : d.settle fuel = some d₁) :
    ∃ d', ComesTo Recording.surface toCompletion d d' ∧
      Stands breakpoints source d' session
        ((state.receive breakpoints event).2.filterMap Effect.command?) rest
        (state.receive breakpoints event).1
        ((state.receive breakpoints event).2.foldl Effect.logged (log ++ texts)) := by
  induction texts generalizing d d₁ log fuel with
  | nil =>
    obtain ⟨d', hgoes, hafter⟩ := Stands.wait h hwait hsettle
    rw [List.append_nil]
    exact ⟨d', hgoes.comesTo, hafter⟩
  | cons text texts ih =>
    obtain ⟨d₂, hgoes, hafter⟩ := Stands.wait h hwait hsettle
    have hafter : Stands breakpoints source d₂ session [] (Session.outputs texts ++ event :: rest)
        state (log ++ [text]) := hafter
    have hsettled : d₂.settle 0 = some d₂ := hafter.settle_nil
    obtain ⟨d', hcomes, hlast⟩ := ih hafter hsettled
    rw [List.append_assoc] at hlast
    exact ⟨d', .head hgoes hcomes, hlast⟩

/-- The controller waits for what the worker tells of the command that it was sent. -/
theorem Stands.answer {command : Command} {told : Array Event} {texts : List String}
    (h : Stands breakpoints source d session [command] [] state log)
    (hwait : toCompletion state = .wait)
    (hreceive : session.receive fuel command.encode = some (after, told))
    (hcontinues : session.Continues after)
    (htold : told.toList = Session.outputs texts ++ event :: rest) :
    ∃ d', ComesTo Recording.surface toCompletion d d' ∧
      Stands breakpoints source d' after
        ((state.receive breakpoints event).2.filterMap Effect.command?) rest
        (state.receive breakpoints event).1
        ((state.receive breakpoints event).2.foldl Effect.logged (log ++ texts)) := by
  obtain ⟨d₁, hsettle, hsettled⟩ := h.settle hreceive hcontinues
  rw [List.nil_append, htold] at hsettled
  exact hsettled.hear hwait hsettle

/-- Where the controller waits for the user, it is asked to run. -/
theorem Stands.run (h : Stands breakpoints source d session commands events state log)
    (hrun : toCompletion state = .run) :
    ∃ d', GoesTo Recording.surface toCompletion d d' ∧
      Stands breakpoints source d' session
        (commands ++ (state.transition breakpoints (.run source)).2.filterMap Effect.command?)
        events (state.transition breakpoints (.run source)).1
        ((state.transition breakpoints (.run source)).2.foldl Effect.logged log) := by
  have hafter := h.apply (nofun : Input.run source ≠ .reset)
  have hsource : Controller.run (desk Recording.surface) d =
      Controller.apply (desk Recording.surface) (.run source) d := by
    rw [← h.editor]
    rfl
  rw [← h.state] at hrun
  rw [← hsource] at hafter
  exact ⟨_, goesTo_of_run hrun, hafter⟩

/-! ## Stretches -/

/-- A line that the worker tells of leads to the request to go on, from a breakpoint by way of the
    user. -/
theorem Stands.proceed {n : Nat} {quiet : List Sight} {m m₁ m₂ : Machine} {line : Line}
    {command : Command} (h : Stands breakpoints source d session [command] []
      (.awaitingPause .run) log)
    (hpursues : session.Pursues command m) (hruns : m.Runs n quiet m₁)
    (hquiet : Sight.views quiet = []) (hstep : m₁.step = .atLine line m₂)
    (hfits : Snapshot.Fits session.limits (m₂.view line)) :
    ∃ d' after, ComesTo Recording.surface toCompletion d d' ∧ after.limits = session.limits ∧
      after.Pursues Command.continueExecution m₂ ∧
      Stands breakpoints source d' after [.continueExecution] [] (.awaitingPause .run)
        (log ++ Sight.texts quiet ++
          if (m₂.view line).line ∈ breakpoints then [pauseText (m₂.view line).line] else []) := by
  obtain ⟨fuel, after, told, hreceive, htold, hcontinues, hexecution, hstate⟩ :=
    hpursues.receive h.talks.isOpen hruns hquiet (.line hstep hfits)
  obtain ⟨d₁, hcomes, hafter⟩ := h.answer rfl hreceive hcontinues htold
  have hnext := Session.pursues_continueExecution hexecution hstate
  rw [Session.lineEvent, ControllerState.receive, ControllerState.arrive] at hafter
  -- At a breakpoint the controller stops, and the policy runs on; elsewhere it goes on by itself.
  by_cases hmem : (m₂.view line).line ∈ breakpoints
  · rw [if_pos (RunMode.stopsAt_iff.2 (.inr hmem))] at hafter
    obtain ⟨d₂, hgoes, hlast⟩ := hafter.run rfl
    refine ⟨d₂, after, hcomes.trans hgoes.comesTo, hcontinues.limits, hnext, ?_⟩
    rw [if_pos hmem]
    exact hlast
  · rw [if_neg (by simp [RunMode.stopsAt_iff, hmem])] at hafter
    refine ⟨d₁, after, hcomes, hcontinues.limits, hnext, ?_⟩
    rw [if_neg hmem, List.append_nil]
    exact hafter

/-- Rounds lead to a state, with some texts in the log. -/
def EndsIn (d : Debugger Recording) (state : ControllerState) (log : List String) : Prop :=
  ∃ d', ComesTo Recording.surface toCompletion d d' ∧ d'.state = state ∧
    d'.surface.panels.output.toList = log

/-- What comes to a debugger that ends somewhere ends there too. -/
theorem EndsIn.of_comesTo (hcomes : ComesTo Recording.surface toCompletion d d₁)
    (h : EndsIn d₁ state log) : EndsIn d state log := by
  obtain ⟨d', hrest, hstate, hlog⟩ := h
  exact ⟨d', hcomes.trans hrest, hstate, hlog⟩

/-- The controller waits for an event that the worker tells after some texts. -/
theorem Stands.endsIn {n : Nat} {quiet : List Sight} {m m₁ : Machine} {command : Command}
    {execution : Option Execution} {ended : SessionState}
    (h : Stands breakpoints source d session [command] [] (.awaitingPause .run) log)
    (hpursues : session.Pursues command m) (hruns : m.Runs n quiet m₁)
    (hquiet : Sight.views quiet = [])
    (hreports : Session.Reports session.limits m₁ (event :: rest) execution ended) :
    EndsIn d (ControllerState.receive breakpoints (.awaitingPause .run) event).1
      ((ControllerState.receive breakpoints (.awaitingPause .run) event).2.foldl Effect.logged
        (log ++ Sight.texts quiet)) := by
  obtain ⟨fuel, after, told, hreceive, htold, hcontinues, -⟩ :=
    hpursues.receive h.talks.isOpen hruns hquiet hreports
  obtain ⟨d', hcomes, hafter⟩ := h.answer rfl hreceive hcontinues htold
  exact ⟨d', hcomes, hafter.state, hafter.output⟩

/-- A run that ends is followed to its end, or up to its first line that is too large. -/
theorem Stands.logs {sights : List Sight} {outcome : Outcome} {m last : Machine}
    {command : Command}
    (h : Stands breakpoints source d session [command] [] (.awaitingPause .run) log)
    (hpursues : session.Pursues command m) (hends : m.Ends sights outcome last) :
    ∃ told state', Logged session.limits breakpoints sights outcome told state' ∧
      EndsIn d state' (log ++ told) := by
  induction hlength : sights.length using Nat.strongRecOn
    generalizing sights m d session command log with
  | ind length ih =>
    -- The next request leads to the first line that is left, or to the end if there is none.
    rcases hends.quiet_or with hquiet |
      ⟨n, quiet, m₁, line, m₂, rest, hruns, hquiet, hstep, hrest, rfl⟩
    · obtain ⟨n, m₁, hruns, hend⟩ := hends
      rw [Sight.eq_map_texts hquiet, ← List.append_nil (List.map _ _)]
      rcases Machine.Progress.eq_of_outcome? hend with ⟨rfl, hstep⟩ | ⟨fault, rfl, hstep⟩
      · refine ⟨_, _, Logged.finished.append_texts _, ?_⟩
        rw [← List.append_assoc]
        exact h.endsIn hpursues hruns hquiet (.finished hstep)
      · refine ⟨_, _, (Logged.faulted fault).append_texts _, ?_⟩
        rw [← List.append_assoc]
        exact h.endsIn hpursues hruns hquiet (.faulted hstep)
    · rw [Sight.eq_map_texts hquiet]
      -- What is left after a line is shorter, and after one that is too large nothing is logged.
      by_cases hfits : Snapshot.Fits session.limits (m₂.view line)
      · obtain ⟨d₁, after, hcomes, hlimits, hnext, hafter⟩ :=
          h.proceed hpursues hruns hquiet hstep hfits
        obtain ⟨told, state', hlogged, hlast⟩ :=
          ih rest.length (by simp [← hlength]; omega) hafter hnext hrest rfl
        rw [hlimits] at hlogged
        refine ⟨_, state', (hlogged.line hfits).append_texts _, ?_⟩
        rw [← List.append_assoc, ← List.append_assoc]
        exact hlast.of_comesTo hcomes
      · obtain ⟨failure, hfailure⟩ := Snapshot.exists_capture_of_not_fits hfits
        refine ⟨_, _, (Logged.tooLarge rest outcome hfailure).append_texts _, ?_⟩
        rw [← List.append_assoc]
        exact h.endsIn hpursues hruns hquiet (.tooLarge hstep hfits hfailure hrest)

/-! ## Runs -/

/-- A controller that has begun its work comes to ask for a run of the script. -/
theorem exists_stands_start {interpreter : Interpreter} (hloader : crew.loader = .ok interpreter)
    (breakpoints : Breakpoints) (source : String) :
    ∃ d session, ComesTo Recording.surface toCompletion
        (.new Recording.surface crew breakpoints (.new source)) d ∧
      session.loaded = some (.ok interpreter) ∧ session.limits = crew.limits ∧
      Stands breakpoints source d session [.startExecution source] [] (.awaitingPause .run)
        [startText .run] := by
  have hnew : Stands breakpoints source (.new Recording.surface crew breakpoints (.new source))
      (.new crew.nextSession crew.limits crew.loader) [.load] [] .loading [] :=
    ⟨(talks_new ..).1, rfl, rfl, rfl, rfl⟩
  rw [hloader] at hnew
  let told : Array Event := #[.output Session.loadingText, .output Session.loadedText, .ready]
  have htold : told.toList =
      Session.outputs [Session.loadingText, Session.loadedText] ++ .ready :: [] := rfl
  obtain ⟨d₁, hcomes, hidle⟩ := hnew.answer rfl
    (Session.receive_load_new crew.nextSession crew.limits interpreter 0) ⟨rfl, rfl, rfl, rfl⟩ htold
  obtain ⟨d₂, hgoes, hasked⟩ := hidle.run rfl
  exact ⟨d₂, _, hcomes.trans hgoes.comesTo, rfl, rfl, hasked⟩

/-- A run that ends is followed up to the end of its log. -/
theorem logs_of_concludes {interpreter : Interpreter} {sights : List Sight} {outcome : Outcome}
    (hloader : crew.loader = .ok interpreter) (breakpoints : Breakpoints)
    (hconcludes : interpreter.Concludes source sights outcome) :
    ∃ told state, Logged crew.limits breakpoints sights outcome told state ∧
      EndsIn (.new Recording.surface crew breakpoints (.new source)) state
        (startText .run :: told) := by
  obtain ⟨d, session, hcomes, hloaded, hlimits, hasked⟩ :=
    exists_stands_start hloader breakpoints source
  have hopen := hasked.talks.isOpen
  rw [← hlimits]
  cases hconcludes with
  -- A script that is refused is answered at once, and there are no sights of it.
  | @refused fault hcompile =>
    have hreceive : session.receive 0 (Command.startExecution source).encode =
        some ({ session with execution := none, state := .errored }, #[.error fault.text]) := by
      rw [Session.receive_of_decode (Command.decode_encode _), Session.handle,
        Session.start_of_compile_error hopen hloaded hcompile]
      rfl
    have htold : (#[.error fault.text] : Array Event).toList =
        Session.outputs [] ++ .error fault.text :: [] := rfl
    obtain ⟨d', hrest, hlast⟩ := hasked.answer rfl hreceive ⟨rfl, rfl, rfl, rfl⟩ htold
    exact ⟨_, _, .faulted fault, d', hcomes.trans hrest, hlast.state, hlast.output⟩
  | ended hcompile hends =>
    obtain ⟨told, state, hlogged, hlast⟩ :=
      hasked.logs (Session.pursues_startExecution hloaded hcompile) hends
    exact ⟨told, state, hlogged, hlast.of_comesTo hcomes⟩

/-- A controller whose log is complete stops. -/
theorem toCompletion_of_logged {limits : SnapshotLimits} {sights : List Sight} {outcome : Outcome}
    (h : Logged limits breakpoints sights outcome log state) : toCompletion state = .stop := by
  induction h with
  | text _ ih => exact ih
  | line _ _ ih => exact ih
  | finished => rfl
  | faulted fault => rfl
  | tooLarge rest outcome hfailure => rfl

/-- A run that ends is taken to completion with any large enough bounds, and in no other way. The
    log holds its texts and its pauses at breakpoints in the order in which they come about, up to
    the first line that is too large, and a text about the end. So all texts are in the log, in the
    order in which they are printed, unless a line is too large. -/
theorem drive_toCompletion {interpreter : Interpreter} {sights : List Sight} {outcome : Outcome}
    (hloader : crew.loader = .ok interpreter) (breakpoints : Breakpoints)
    (hconcludes : interpreter.Concludes source sights outcome) :
    ∃ d' told,
      (∃ n, ∀ fuel rounds, n ≤ fuel → n ≤ rounds →
        drive Recording.surface fuel toCompletion rounds
          (.new Recording.surface crew breakpoints (.new source)) = some d') ∧
      (∀ fuel rounds d'', drive Recording.surface fuel toCompletion rounds
        (.new Recording.surface crew breakpoints (.new source)) = some d'' → d'' = d') ∧
      d'.surface.panels.output.toList = startText .run :: told ∧
      Logged crew.limits breakpoints sights outcome told d'.state ∧
      ((∀ view ∈ Sight.views sights, Snapshot.Fits crew.limits view) →
        (Sight.texts sights).Sublist d'.surface.panels.output.toList) := by
  obtain ⟨told, state, hlogged, d', hcomes, rfl, hlog⟩ :=
    logs_of_concludes hloader breakpoints hconcludes
  obtain ⟨n, hdrive⟩ :=
    drive_of_comesTo hcomes (isOver_of_stop (toCompletion_of_logged hlogged))
  refine ⟨d', told, ⟨n, hdrive⟩, fun fuel rounds d'' h => ?_, hlog, hlogged, fun hfits => ?_⟩
  · exact drive_unique h (hdrive n n (Nat.le_refl n) (Nat.le_refl n))
  · rw [hlog]
    exact (hlogged.texts_sublist hfits).cons _

/-- What the recorder notes of a whole run is its trace. -/
theorem concludes_of_recorder {interpreter : Interpreter} {code : Code} {stretches : Nat}
    {outcome : Outcome} {e : Execution} {sights : List Sight}
    (hcompile : interpreter.compile source = .ok code)
    (hfinish : (Execution.start code interpreter.maxCallDepth true).finish .recorder fuel stretches
      [] = some (outcome, e, sights)) : interpreter.Concludes source sights outcome := by
  obtain ⟨trace, m, hends, -, rfl⟩ := Execution.ends_of_finish rfl hfinish
  rw [Execution.start, Watcher.attend_recorder, List.nil_append]
  exact .ended hcompile hends

/-- The script that announces what it has bound shows two lines with one variable at most. -/
theorem exists_concludes_announcing : ∃ first second : FrameView,
    Interpreter.Concludes ⟨10, 20⟩ announcingText [.line first, .line second, .text "1"] .finished ∧
      first.line = 1 ∧ second.line = 2 ∧ Snapshot.Fits ⟨1, 10⟩ first ∧
        Snapshot.Fits ⟨1, 10⟩ second := by
  obtain ⟨first, second, outcome, e, hfinish, rfl, hlines⟩ : ∃ first second outcome e,
      (Execution.start announcing.emit 10 true).finish .recorder 20 3 [] =
        some (outcome, e, [.line first, .line second, .text "1"]) ∧ outcome = .finished ∧
      first.line = 1 ∧ second.line = 2 ∧ Snapshot.Fits ⟨1, 10⟩ first ∧
        Snapshot.Fits ⟨1, 10⟩ second :=
    ⟨_, _, _, _, rfl, rfl, rfl, rfl, Nat.zero_le 1, Nat.le_refl 1⟩
  exact ⟨first, second, concludes_of_recorder compile_announcing hfinish, hlines⟩

/-- A crew whose sessions show one variable at most. -/
def narrowCrew : Crew := .new ⟨0⟩ ⟨1, 10⟩ (.ok ⟨10, 20⟩)

/-- With a breakpoint on its second line, the text of the script follows the pause there. -/
theorem drive_toCompletion_announcing : ∃ first second : FrameView, ∃ fuel rounds d,
    Interpreter.Concludes ⟨10, 20⟩ announcingText [.line first, .line second, .text "1"] .finished ∧
    (∀ view ∈ [first, second], Snapshot.Fits ⟨1, 10⟩ view) ∧
    drive Recording.surface fuel toCompletion rounds
      (.new Recording.surface narrowCrew (.ofList [2]) (.new announcingText)) = some d ∧
    d.state = .finished ∧ d.surface.panels.output.toList =
      [startText .run, pauseText 2, "1", finishText] ∧
    ["1"].Sublist d.surface.panels.output.toList := by
  obtain ⟨first, second, hconcludes, hfirst, hsecond, hnone, hone⟩ := exists_concludes_announcing
  have hloader : narrowCrew.loader = .ok ⟨10, 20⟩ := rfl
  have hfits : ∀ view ∈ [first, second], Snapshot.Fits ⟨1, 10⟩ view := by simp [hnone, hone]
  obtain ⟨d, told, ⟨n, hdrive⟩, -, houtput, hlogged, htexts⟩ :=
    drive_toCompletion hloader (.ofList [2]) hconcludes
  have hexpected :
      Logged ⟨1, 10⟩ (.ofList [2]) [.line first, .line second, .text "1"] .finished _ _ :=
    .line hnone (.line hone (.text .finished))
  obtain ⟨rfl, hstate⟩ := hlogged.unique hexpected
  refine ⟨first, second, n, n, d, hconcludes, hfits, hdrive n n (Nat.le_refl n) (Nat.le_refl n),
    hstate, ?_, htexts hfits⟩
  rw [houtput, hfirst, hsecond]
  rfl

/-- A script that prints what it bound first after it has bound something else. -/
def belated : Program :=
  [.assign 1 "a" (.int 1), .assign 2 "b" (.int 2), .expr 3 (.call (.ident "print") [.ident "a"])]

/-- The text of the script. -/
def belatedText : String := "a = 1
b = 2
print(a)"

theorem compile_belated : Interpreter.compile ⟨10, 20⟩ belatedText = .ok belated.emit := by
  have hparse : Program.parse 20 belatedText = .ok belated := by cbv
  exact Interpreter.compile_of_parse hparse rfl

/-- The last line of the script has two variables. -/
theorem exists_concludes_belated : ∃ first second third : FrameView,
    Interpreter.Concludes ⟨10, 20⟩ belatedText [.line first, .line second, .line third, .text "1"]
        .finished ∧
      Snapshot.Fits ⟨1, 10⟩ first ∧ Snapshot.Fits ⟨1, 10⟩ second ∧
        ¬Snapshot.Fits ⟨1, 10⟩ third := by
  obtain ⟨first, second, third, outcome, e, hfinish, rfl, hfits⟩ :
      ∃ first second third outcome e,
        (Execution.start belated.emit 10 true).finish .recorder 30 4 [] =
          some (outcome, e, [.line first, .line second, .line third, .text "1"]) ∧
        outcome = .finished ∧ Snapshot.Fits ⟨1, 10⟩ first ∧ Snapshot.Fits ⟨1, 10⟩ second ∧
          ¬Snapshot.Fits ⟨1, 10⟩ third :=
    ⟨_, _, _, _, _, rfl, rfl, Nat.zero_le 1, Nat.le_refl 1, Nat.not_succ_le_self 1⟩
  exact ⟨first, second, third, concludes_of_recorder compile_belated hfinish, hfits⟩

/-- Not every text that is printed gets into the log, even under valid limits. -/
theorem not_forall_texts_logged :
    ¬∀ (limits : Limits) (id : Wire.SessionId) (breakpoints : Breakpoints) (source : String)
      (interpreter : Interpreter) (sights : List Sight) (outcome : Outcome),
      limits.violation? = none → Interpreter.load limits = .ok interpreter →
      interpreter.Concludes source sights outcome → ∀ fuel rounds d,
        drive Recording.surface fuel toCompletion rounds (.new Recording.surface
          (.new id (.ofLimits limits) (Interpreter.load limits)) breakpoints (.new source)) =
            some d →
        (Sight.texts sights).Sublist d.surface.panels.output.toList := by
  intro hall
  obtain ⟨first, second, third, hconcludes, hfirst, hsecond, hthird⟩ := exists_concludes_belated
  -- The script prints what it has bound, but its third line has too many variables.
  obtain ⟨failure, hfailure⟩ := Snapshot.exists_capture_of_not_fits hthird
  have hloader : narrowCrew.loader = .ok ⟨10, 20⟩ := rfl
  obtain ⟨told, state, hlogged, d, hcomes, rfl, hlog⟩ :=
    logs_of_concludes hloader .empty hconcludes
  obtain ⟨n, hdrive⟩ := drive_of_comesTo hcomes (isOver_of_stop (toCompletion_of_logged hlogged))
  have hexpected : Logged ⟨1, 10⟩ .empty [.line first, .line second, .line third, .text "1"]
      .finished [errorText failure.text] .errored :=
    .line hfirst (.line hsecond (.tooLarge [.text "1"] .finished hfailure))
  obtain ⟨rfl, -⟩ := hlogged.unique hexpected
  have htexts := hall ⟨10, 1, 10, 20⟩ ⟨0⟩ .empty belatedText ⟨10, 20⟩ _ _ rfl rfl hconcludes n n d
    (hdrive n n (Nat.le_refl n) (Nat.le_refl n))
  rw [hlog] at htexts
  have hmem : "1" ∈ [startText .run, errorText failure.text] := htexts.subset (by simp)
  rcases List.mem_pair.1 hmem with hstart | herror
  · exact nomatch congrArg String.toList hstart
  · -- The text of an error is longer than its first word.
    have hlength : "1".length = "RUNTIME ERROR: ".length + failure.text.length := by
      rw [← String.length_append]
      exact congrArg String.length herror
    have hone : "1".length = 1 := rfl
    have hprefix : "RUNTIME ERROR: ".length = 15 := rfl
    omega

end Debugger

end Linewise
