import Linewise.Proofs.Controller.Ledger
import Linewise.Proofs.Controller.Shown
import Linewise.Proofs.Session.Exchange

/-!
# Whose texts are in the log

A ledger is kept of a debugger (`Debugger.Booked`), whatever the user does, resets included, and
however the worker and the controller take turns. By what it notes, the texts in the log came from
the run that the user asked for last, but for one kind (`Debugger.Booked.texts_belong`): what a run
prints after it could not be reported any more gets into the log of the next run, if the user starts
that one before the texts arrive (`Debugger.not_forall_run_eq_starts`).
-/

namespace Linewise

open Wire (Command Envelope Event)

/-- What a control asks for, given the text in the editor. -/
def Action.input? (source : String) : Action → Option Input
  | .run => some (.run source)
  | .step => some (.step source)
  | .reset => some .reset
  | .addBreakpoint _ | .removeBreakpoint _ | .listBreakpoints | .quit => none

namespace Worker

/-- The text that the worker takes next begins a run. -/
def beginsNext (worker : Worker) : Bool :=
  match worker.inbox with
  | [] => false
  | text :: _ =>
    match Command.decode text with
    | .ok command => command.begins
    | .error _ => false

/-- The events that a worker has told since an earlier time. -/
def toldSince (worker earlier : Worker) : List Event :=
  (worker.outbox.drop earlier.outbox.length).filterMap fun text =>
    (Envelope.decode text).toOption.map Envelope.event

end Worker

namespace Ledger

/-- The ledger after an action of the user. -/
def act (d : Debugger Recording) (action : Action) (ledger : Ledger) : Ledger :=
  match action.input? d.surface.source with
  | some input => ledger.perform none (d.state.transition d.breakpoints input).2
  | none => ledger

/-- The ledger after the worker has taken the next text. -/
def work (worker worker' : Worker) (ledger : Ledger) : Ledger :=
  ledger.take worker.beginsNext (worker'.toldSince worker)

end Ledger

namespace Debugger

/-- The states that a debugger can come to, each with its ledger. -/
inductive Booked (crew : Crew) (breakpoints : Breakpoints) (source : String) :
    Debugger Recording → Ledger → Prop
  | new : Booked crew breakpoints source
      (.new Recording.surface crew breakpoints (.new source)) .blank
  | act {d : Debugger Recording} {ledger : Ledger} (action : Action)
      (h : Booked crew breakpoints source d ledger) :
      Booked crew breakpoints source (Controller.act (desk Recording.surface) d action)
        (ledger.act d action)
  /-- The user changes the text in the editor. -/
  | edit {d : Debugger Recording} {ledger : Ledger} (text : String)
      (h : Booked crew breakpoints source d ledger) :
      Booked crew breakpoints source { d with surface := { d.surface with source := text } } ledger
  /-- The worker does what it was asked next, as far as it takes. -/
  | work {d : Debugger Recording} {ledger : Ledger} {worker worker' : Worker} {fuel : Nat}
      (h : Booked crew breakpoints source d ledger) (hpresent : d.workers.present = some worker)
      (hwork : worker.work fuel = some worker') :
      Booked crew breakpoints source (d.withWorker worker') (ledger.work worker worker')
  /-- The controller takes the next message of the worker. -/
  | deliver {d d' : Debugger Recording} {ledger : Ledger}
      (h : Booked crew breakpoints source d ledger)
      (hdeliver : d.deliver? Recording.surface = some d') :
      Booked crew breakpoints source d' (ledger.deliver d.breakpoints d.state)

variable {crew : Crew} {breakpoints : Breakpoints} {source : String} {d d' : Debugger Recording}
  {ledger : Ledger} {loader : Except LoadFault Interpreter} {session : Session}
  {commands : List Command} {events : List Event}

/-! ## The log on the surface -/

/-- The texts on the surface are those of the ledger. -/
def Shows (d : Debugger Recording) (ledger : Ledger) : Prop :=
  d.surface.panels.output.toList = ledger.log.map Chunk.text

/-- The texts on the surface follow the changes in the same way as the chunks of a ledger do,
    whatever event these come with. -/
theorem output_foldl {recording : Recording} {chunks : List Chunk} (origin : Option Emission)
    (h : recording.panels.output.toList = chunks.map Chunk.text) (changes : List Update) :
    (changes.foldl (fun state change => Recording.surface.update change state)
      recording).panels.output.toList =
        (changes.foldl (Update.chunks origin) chunks).map Chunk.text := by
  induction changes generalizing recording chunks with
  | nil => exact h
  | cons change changes ih =>
    refine ih ?_
    cases change with
    | clearOutput => rfl
    | appendOutput text =>
      rw [Update.chunks, List.map_append, ← h]
      exact Array.toList_push
    | showVariables | clearVariables | showBreakpoints | setControls => exact h

/-- A ledger that performs the effects of an input shows what is on the surface afterwards. -/
theorem Shows.apply {input : Input} (h : d.Shows ledger)
    (htalks : d.Talks session commands events) (hinput : input ≠ .reset)
    (origin : Option Emission) :
    Shows (Controller.apply (desk Recording.surface) input d)
      (ledger.perform origin (d.state.transition d.breakpoints input).2) := by
  have hnext : Talks { d with state := (d.state.transition d.breakpoints input).1 } session commands
      events := ⟨htalks.present, htalks.listens, htalks.isOpen⟩
  have hstays : .replaceWorker ∉ (d.state.transition d.breakpoints input).2 :=
    replaceWorker_notMem_transition hinput
  have hperform := hnext.surface_perform Recording.surface hstays
  -- The controls that are shown afterwards are no texts.
  have houtput : (Controller.apply (desk Recording.surface) input d).surface.panels.output =
      (Controller.perform (desk Recording.surface) (d.state.transition d.breakpoints input).2
        { d with state := (d.state.transition d.breakpoints input).1 }).surface.panels.output := rfl
  rw [Shows, Ledger.log_perform, houtput, hperform]
  exact output_foldl origin h _

/-! ## Tallies -/

/-- The ledger fits the debugger, the session of its worker and the commands that the worker has not
    taken. -/
structure Tallies (loader : Except LoadFault Interpreter) (d : Debugger Recording)
    (ledger : Ledger) (session : Session) (commands : List Command) : Prop where
  talks : d.Talks session commands (ledger.pending.map Emission.event)
  steady : session.Steady loader
  orderly : ledger.Orderly d.state commands
  shows : d.Shows ledger

/-- Breakpoints and the text in the editor do not matter. -/
theorem Tallies.of_same (h : Tallies loader d ledger session commands)
    (hstate : d'.state = d.state) (hsession : d'.session = d.session)
    (hworkers : d'.workers = d.workers)
    (houtput : d'.surface.panels.output = d.surface.panels.output) :
    Tallies loader d' ledger session commands := by
  refine ⟨⟨?_, ?_, h.talks.isOpen⟩, h.steady, ?_, ?_⟩
  · rw [hworkers, h.talks.present]
  · rw [hsession, h.talks.listens]
  · rw [hstate]
    exact h.orderly
  · rw [Shows, houtput]
    exact h.shows

/-- The blank ledger fits a new debugger. -/
theorem tallies_new (crew : Crew) (breakpoints : Breakpoints) (source : String) :
    Tallies crew.loader (.new Recording.surface crew breakpoints (.new source)) .blank
      (.new crew.nextSession crew.limits crew.loader) [.load] :=
  ⟨(talks_new Recording.surface crew breakpoints (.new source)).1, Session.steady_new _ _ _,
    Ledger.orderly_fresh ⟨rfl, rfl, rfl⟩ nofun, rfl⟩

/-- After a reset the ledger fits the debugger with its new worker, whatever was there before. -/
theorem tallies_reset (d : Debugger Recording) (ledger : Ledger) :
    Tallies d.workers.loader (Controller.act (desk Recording.surface) d .reset)
      (ledger.act d .reset) d.freshSession [.load] := by
  obtain ⟨htalks, hstate⟩ := talks_reset Recording.surface d
  refine ⟨htalks, Session.steady_new _ _ _, ?_, rfl⟩
  rw [Controller.act, hstate]
  refine Ledger.orderly_fresh ⟨rfl, rfl, rfl⟩ fun chunk hchunk => ?_
  rw [List.mem_singleton.1 hchunk]

/-- A control that is touched. -/
theorem Tallies.control (h : Tallies loader d ledger session commands) (mode : RunMode)
    (source : String) :
    Tallies loader (Controller.apply (desk Recording.surface) (mode.input source) d)
      (ledger.perform none (d.state.transition d.breakpoints (mode.input source)).2) session
      (commands ++ Ledger.asked d.breakpoints d.state (mode.input source)) := by
  have hinput : mode.input source ≠ .reset := by cases mode <;> exact nofun
  have hstays : .replaceWorker ∉ (d.state.transition d.breakpoints (mode.input source)).2 :=
    replaceWorker_notMem_transition hinput
  obtain ⟨htalks, hstate⟩ := h.talks.apply Recording.surface hinput
  refine ⟨?_, h.steady, ?_, h.shows.apply h.talks hinput none⟩
  · rw [Ledger.pending_perform hstays]
    exact htalks
  · rw [hstate]
    exact h.orderly.control d.breakpoints mode source

/-- A ledger that fits a debugger fits it after an action of the user. A reset begins with a new
    worker, and so with a new session. -/
theorem Tallies.act (h : Tallies loader d ledger session commands) (action : Action) :
    ∃ loader' session' commands', Tallies loader'
      (Controller.act (desk Recording.surface) d action) (ledger.act d action) session'
      commands' := by
  cases action with
  | run => exact ⟨_, _, _, h.control .run d.surface.source⟩
  | step => exact ⟨_, _, _, h.control .step d.surface.source⟩
  | reset => exact ⟨_, _, _, tallies_reset d ledger⟩
  -- Breakpoints are shown beside the log and are no business of the worker.
  | addBreakpoint text =>
    refine ⟨loader, session, commands, ?_⟩
    rw [Controller.act, Controller.addBreakpoint]
    cases Breakpoints.line? text with
    | none => exact h
    | some line => exact h.of_same rfl rfl rfl rfl
  | removeBreakpoint line => exact ⟨loader, session, commands, h.of_same rfl rfl rfl rfl⟩
  | listBreakpoints => exact ⟨loader, session, commands, h.of_same rfl rfl rfl rfl⟩
  | quit => exact ⟨loader, session, commands, h⟩

/-- The ledger notes what the worker tells of the command that it takes. -/
theorem Talks.work_eq {worker worker' : Worker} {command : Command} {rest : List Command}
    {after : Session} {told : List Event} (h : d.Talks session (command :: rest) events)
    (hpresent : d.workers.present = some worker)
    (houtbox : worker'.outbox = worker.outbox ++ told.map after.enveloped) (ledger : Ledger) :
    ledger.work worker worker' = ledger.take command.begins told := by
  obtain rfl := Option.some.inj (hpresent.symm.trans h.present)
  have hread : (fun text => (Envelope.decode text).toOption.map Envelope.event) ∘
      after.enveloped = some := by
    funext event
    rw [Function.comp, Session.enveloped, Envelope.decode_encode]
    rfl
  rw [Ledger.work, Worker.toldSince, houtbox, List.drop_left, List.filterMap_map, hread,
    List.filterMap_some, Worker.beginsNext]
  simp only [List.map_cons, Command.decode_encode]

/-- A command that is taken. -/
theorem Tallies.take {worker' : Worker} {command : Command} {after : Session} {told : Array Event}
    {fuel : Nat} (h : Tallies loader d ledger session (command :: commands))
    (hreceive : session.receive fuel command.encode = some (after, told))
    (htalks : session.Continues after → (d.withWorker worker').Talks after commands
      (ledger.pending.map Emission.event ++ told.toList)) :
    Tallies loader (d.withWorker worker') (ledger.take command.begins told.toList) after
      commands := by
  -- What is not a request is to load the interpreter, which is answered by a notice.
  have hkept : session.Continues after ∧ after.Steady loader ∧
      (ledger.take command.begins told.toList).Orderly d.state commands := by
    by_cases hrequest : command.isRequest = true
    · obtain ⟨hcontinues, hsteady, response, hresponds, -⟩ :=
        h.steady.request (Command.decode_encode _) hrequest hreceive
      exact ⟨hcontinues, hsteady, h.orderly.request hrequest hresponds⟩
    · obtain rfl : command = .load := by
        cases command with
        | load => rfl
        | _ => exact absurd rfl hrequest
      obtain ⟨hcontinues, -, -, texts, notice, htold, hnotice⟩ :=
        Session.receive_load h.talks.isOpen hreceive
      have htakes := h.steady.takes_load (Command.decode_encode _) hreceive
      refine ⟨hcontinues, htakes.steady, ?_⟩
      rw [htold]
      exact h.orderly.load (hnotice.imp And.left id)
  refine ⟨?_, hkept.2.1, hkept.2.2, h.shows⟩
  rw [Ledger.take, List.map_append, Emission.map_event_emissions]
  exact htalks hkept.1

/-- A ledger that fits a debugger fits it after the worker has taken its next text. -/
theorem Tallies.work {worker worker' : Worker} {fuel : Nat}
    (h : Tallies loader d ledger session commands) (hpresent : d.workers.present = some worker)
    (hwork : worker.work fuel = some worker') : ∃ session' commands',
      Tallies loader (d.withWorker worker') (ledger.work worker worker') session' commands' := by
  rcases h.talks.work hpresent hwork with ⟨rfl, rfl⟩ |
    ⟨command, rest, after, told, rfl, hreceive, houtbox, htalks⟩
  · -- Without a command the worker waits.
    have hsame : ledger.work worker' worker' = ledger := by
      have htold : worker'.toldSince worker' = [] := by
        rw [Worker.toldSince, List.drop_length]
        rfl
      obtain rfl := Option.some.inj (hpresent.symm.trans h.talks.present)
      rw [Ledger.work, htold, Ledger.take, emissions, List.append_nil]
      rfl
    rw [hsame]
    refine ⟨session, [], h.of_same rfl rfl ?_ rfl⟩
    rw [withWorker, ← hpresent]
  · rw [h.talks.work_eq hpresent houtbox]
    exact ⟨after, rest, h.take hreceive htalks⟩

/-- An event that is taken. -/
theorem Tallies.deliver {e : Emission} {rest : List Emission}
    (h : Tallies loader d ledger session commands) (hpending : ledger.pending = e :: rest) :
    d.deliver? Recording.surface = some (afterEvent Recording.surface d session commands e.event
        (rest.map Emission.event)) ∧
      Tallies loader (afterEvent Recording.surface d session commands e.event
        (rest.map Emission.event)) (ledger.deliver d.breakpoints d.state) session
        (commands ++ Ledger.asked d.breakpoints d.state (.event e.event)) := by
  have htalks := h.talks
  rw [hpending, List.map_cons] at htalks
  obtain ⟨hafter, hstate⟩ := htalks.afterEvent Recording.surface
  have hstays : .replaceWorker ∉ (d.state.transition d.breakpoints (.event e.event)).2 :=
    replaceWorker_notMem_transition nofun
  have hrest : Talks (d.withWorker ⟨session, commands.map Command.encode,
      (rest.map Emission.event).map session.enveloped⟩) session commands
      (rest.map Emission.event) := ⟨rfl, htalks.listens, htalks.isOpen⟩
  -- The controller and the ledger both take the event first and then perform its effects.
  have hdeliver : ledger.deliver d.breakpoints d.state =
      Ledger.perform (some e) (d.state.transition d.breakpoints (.event e.event)).2
        { ledger with pending := rest } := by
    rw [Ledger.deliver, hpending]
  refine ⟨htalks.deliver?_cons Recording.surface, ?_, h.steady, ?_, ?_⟩
  · rw [hdeliver, Ledger.pending_perform hstays]
    exact hafter
  · rw [hstate]
    exact h.orderly.deliver hpending d.breakpoints
  · rw [hdeliver]
    have hshows : Shows (d.withWorker ⟨session, commands.map Command.encode,
        (rest.map Emission.event).map session.enveloped⟩) { ledger with pending := rest } :=
      h.shows
    exact hshows.apply hrest (nofun : Input.event e.event ≠ .reset) (some e)

/-- The ledger of a debugger tallies with it in every state that it can come to. -/
theorem Booked.tallies (h : Booked crew breakpoints source d ledger) :
    ∃ loader session commands, Tallies loader d ledger session commands := by
  -- One case for each kind of step, which has its own lemma.
  induction h with
  | new => exact ⟨_, _, _, tallies_new crew breakpoints source⟩
  | act action _ ih =>
    obtain ⟨loader, session, commands, h⟩ := ih
    exact h.act action
  | edit text _ ih =>
    obtain ⟨loader, session, commands, h⟩ := ih
    exact ⟨loader, session, commands, h.of_same rfl rfl rfl rfl⟩
  | work _ hpresent hwork ih =>
    obtain ⟨loader, session, commands, h⟩ := ih
    obtain ⟨session', commands', h⟩ := h.work hpresent hwork
    exact ⟨loader, session', commands', h⟩
  | @deliver d d' ledger _ hdeliver ih =>
    obtain ⟨loader, session, commands, h⟩ := ih
    cases hpending : ledger.pending with
    | nil =>
      have htalks := h.talks
      rw [hpending] at htalks
      exact nomatch (htalks.deliver?_nil Recording.surface).symm.trans hdeliver
    | cons e rest =>
      obtain ⟨hnext, h⟩ := h.deliver hpending
      -- What the controller takes is the next event of the ledger.
      obtain rfl := Option.some.inj (hnext.symm.trans hdeliver)
      exact ⟨loader, session, _, h⟩

/-! ## A text that comes late -/

/-- No input changes the breakpoints or the text in the editor. -/
theorem perform_keeps (effects : List Effect) (d : Debugger Recording) :
    (Controller.perform (desk Recording.surface) effects d).breakpoints = d.breakpoints ∧
      (Controller.perform (desk Recording.surface) effects d).surface.source =
        d.surface.source := by
  induction effects generalizing d with
  | nil => exact ⟨rfl, rfl⟩
  | cons effect effects ih =>
    cases effect with
    | update change => exact ih (Controller.update (desk Recording.surface) change d)
    | replaceWorker => exact ih _
    | send command =>
      rw [Controller.perform]
      cases (desk Recording.surface).staff.send command d.workers with
      | none => exact ⟨rfl, rfl⟩
      | some crew => exact ih { d with workers := crew }

/-- A debugger without breakpoints, at some point. -/
structure Stage (crew : Crew) (source : String) (d : Debugger Recording)
    (state : ControllerState) (ledger : Ledger) (session : Session) (commands : List Command) :
    Prop where
  booked : Booked crew .empty source d ledger
  tallies : Tallies crew.loader d ledger session commands
  state : d.state = state
  breakpoints : d.breakpoints = .empty
  editor : d.surface.source = source

variable {state : ControllerState}

/-- At any point where a command is waiting, the worker takes it and tells what the session does. -/
theorem Stage.take {command : Command} {after : Session} {told : Array Event} {fuel : Nat}
    (h : Stage crew source d state ledger session (command :: commands))
    (hreceive : session.receive fuel command.encode = some (after, told)) :
    ∃ d', Stage crew source d' state (ledger.take command.begins told.toList) after commands := by
  have htalks := h.tallies.talks
  let worker : Worker := ⟨session, (command :: commands).map Command.encode,
    (ledger.pending.map Emission.event).map session.enveloped⟩
  have hwork : worker.work fuel = some ⟨after, commands.map Command.encode,
      worker.outbox ++ told.toList.map after.enveloped⟩ := by
    rw [Worker.work]
    simp only [worker, List.map_cons, hreceive]
    rfl
  have hbooked := h.booked.work htalks.present hwork
  rw [htalks.work_eq htalks.present rfl] at hbooked
  -- The worker has done this and nothing else, so its session and events are the given ones.
  rcases htalks.work htalks.present hwork with ⟨hnone, -⟩ |
    ⟨command', rest, after', told', hcommands, hreceive', -, hnext⟩
  · cases hnone
  · obtain ⟨rfl, rfl⟩ := List.cons.inj hcommands
    obtain ⟨rfl, rfl⟩ := Prod.mk.inj (Option.some.inj (hreceive.symm.trans hreceive'))
    exact ⟨_, hbooked, h.tallies.take hreceive hnext, h.state, h.breakpoints, h.editor⟩

/-- At any point where an event is waiting, the controller takes it and does what its transition
    says. -/
theorem Stage.deliver {e : Emission} {rest : List Emission}
    (h : Stage crew source d state ledger session commands)
    (hpending : ledger.pending = e :: rest) :
    ∃ d', Stage crew source d' (state.transition .empty (.event e.event)).1
      (ledger.deliver .empty state) session
      (commands ++ Ledger.asked .empty state (.event e.event)) := by
  obtain ⟨hdeliver, htallies⟩ := h.tallies.deliver hpending
  have hbooked := h.booked.deliver hdeliver
  have htalks := h.tallies.talks
  rw [hpending, List.map_cons] at htalks
  have hstate := (htalks.afterEvent Recording.surface).2
  obtain ⟨hbreakpoints, hsource⟩ := perform_keeps
    (d.state.transition d.breakpoints (.event e.event)).2
    { d.withWorker ⟨session, commands.map Command.encode,
        (rest.map Emission.event).map session.enveloped⟩ with
      state := (d.state.transition d.breakpoints (.event e.event)).1 }
  rw [h.state, h.breakpoints] at hbooked htallies hstate
  exact ⟨_, hbooked, htallies, hstate, hbreakpoints.trans h.breakpoints, hsource.trans h.editor⟩

/-- At any point the user may ask for a run of the text in the editor. -/
theorem Stage.run (h : Stage crew source d state ledger session commands) :
    ∃ d', Stage crew source d' (state.transition .empty (.run source)).1
      (ledger.perform none (state.transition .empty (.run source)).2) session
      (commands ++ Ledger.asked .empty state (.run source)) := by
  obtain ⟨hbooked, htallies, rfl, hbreakpoints, rfl⟩ := h
  have hrun := htallies.control .run d.surface.source
  have hstate := (htallies.talks.apply Recording.surface
    (nofun : Input.run d.surface.source ≠ .reset)).2
  obtain ⟨hstays, hsource⟩ := perform_keeps
    (d.state.transition d.breakpoints (.run d.surface.source)).2
    { d with state := (d.state.transition d.breakpoints (.run d.surface.source)).1 }
  have hact := hbooked.act .run
  rw [Ledger.act, Action.input?] at hact
  rw [hbreakpoints] at hact hrun hstate
  exact ⟨_, hact, hrun, hstate, hstays.trans hbreakpoints, hsource⟩

/-- A script that prints what it has bound. -/
def announcing : Program :=
  [.assign 1 "a" (.int 1), .expr 2 (.call (.ident "print") [.ident "a"])]

/-- The text of the script. -/
def announcingText : String := "a = 1\nprint(a)"

theorem compile_announcing :
    Interpreter.compile ⟨10, 20⟩ announcingText = .ok announcing.emit := by
  have hparse : Program.parse 20 announcingText = .ok announcing := by cbv
  exact Interpreter.compile_of_parse hparse rfl

/-- A crew whose sessions show no variables at all. -/
def terseCrew : Crew := .new ⟨0⟩ ⟨0, 10⟩ (.ok ⟨10, 20⟩)

/-- What a terse session tells of the script: its first line, and of the second one that there is a
    variable too many, before the text that is printed there. -/
theorem exists_receive_announcing : ∃ paused ended, ∃ failure : TraceFailure,
    Session.terseSession.receive 20 (Command.startExecution announcingText).encode =
      some (paused, #[.lineExecuted 1 .empty]) ∧
    paused.receive 20 Command.continueExecution.encode =
      some (ended, #[.error failure.text, .output "1"]) := by
  simp only [Session.receive_of_decode (Command.decode_encode _), Session.handle]
  rw [Session.start_of_compile rfl compile_announcing]
  exact ⟨_, _, ⟨_⟩, rfl, rfl⟩

/-- The terse crew comes to wait for the user, with what it has told of loading in the log. -/
theorem exists_stage_idle : ∃ d chunks, Stage terseCrew announcingText d .idle ⟨0, 0, [], chunks⟩
    Session.terseSession [] := by
  have hload : (Session.new ⟨0⟩ ⟨0, 10⟩ (.ok ⟨10, 20⟩)).receive 0 Command.load.encode =
      some (Session.terseSession,
        #[.output Session.loadingText, .output Session.loadedText, .ready]) :=
    Session.receive_load_new ..
  have hnew : Stage terseCrew announcingText
      (.new Recording.surface terseCrew .empty (.new announcingText)) .loading .blank
      (.new ⟨0⟩ ⟨0, 10⟩ (.ok ⟨10, 20⟩)) [.load] := ⟨.new, tallies_new .., rfl, rfl, rfl⟩
  obtain ⟨_, hloaded⟩ := hnew.take hload
  obtain ⟨_, hfirst⟩ := hloaded.deliver rfl
  obtain ⟨_, hsecond⟩ := hfirst.deliver rfl
  obtain ⟨d, hthird⟩ := hsecond.deliver rfl
  exact ⟨d, _, hthird⟩

/-- The script is run up to its second line, where its text is printed after the error. The user
    starts it once more before that text arrives. -/
theorem exists_late : ∃ d ledger e, Booked terseCrew .empty announcingText d ledger ∧
    ledger.log = [⟨startText .run, none⟩, ⟨"1", some e⟩] ∧ ledger.starts = 2 ∧
      e.event = .output "1" ∧ e.run = 1 := by
  obtain ⟨paused, ended, failure, hstart, hend⟩ := exists_receive_announcing
  obtain ⟨_, chunks, hidle⟩ := exists_stage_idle
  let late : Emission := ⟨.output "1", 1, some (.error failure.text)⟩
  obtain ⟨_, hasked⟩ : ∃ d, Stage terseCrew announcingText d (.awaitingPause .run)
      ⟨1, 0, [], [⟨startText .run, none⟩]⟩ Session.terseSession
      [.startExecution announcingText] := hidle.run
  obtain ⟨_, hline⟩ := hasked.take hstart
  obtain ⟨_, hcontinued⟩ : ∃ d, Stage terseCrew announcingText d (.awaitingPause .run)
      ⟨1, 1, [], [⟨startText .run, none⟩]⟩ paused [.continueExecution] := hline.deliver rfl
  obtain ⟨_, hfailed⟩ := hcontinued.take hend
  obtain ⟨_, herrored⟩ : ∃ d, Stage terseCrew announcingText d .errored
      ⟨1, 1, [late], [⟨startText .run, none⟩,
        ⟨errorText failure.text, some ⟨.error failure.text, 1, none⟩⟩]⟩ ended [] :=
    hfailed.deliver rfl
  obtain ⟨_, hagain⟩ : ∃ d, Stage terseCrew announcingText d (.awaitingPause .run)
      ⟨2, 1, [late], [⟨startText .run, none⟩]⟩ ended [.startExecution announcingText] :=
    herrored.run
  obtain ⟨d, hlate⟩ : ∃ d, Stage terseCrew announcingText d (.awaitingPause .run)
      ⟨2, 1, [], [⟨startText .run, none⟩, ⟨"1", some late⟩]⟩ ended
      [.startExecution announcingText] := hagain.deliver rfl
  exact ⟨d, _, late, hlate.booked, rfl, rfl, rfl, rfl⟩

/-! ## Whose texts -/

/-- A ledger is about the messages that the present worker has sent and the texts in the log. Every
    event of which there is a text in the log came from the run that was asked for last, since the
    present worker is there, unless the worker told it after the response that the run could not be
    reported, and then it may come from an earlier run. -/
theorem Booked.texts_belong (h : Booked crew breakpoints source d ledger) :
    (∃ worker, d.workers.present = some worker ∧
      worker.outbox = ledger.pending.map fun e => worker.session.enveloped e.event) ∧
    d.surface.panels.output.toList = ledger.log.map Chunk.text ∧
    ∀ chunk ∈ ledger.log, ∀ e, chunk.origin = some e →
      e.run = ledger.starts ∨ e.run < ledger.starts ∧
        ∃ failure : TraceFailure, e.answer = some (.error failure.text) := by
  obtain ⟨loader, session, commands, h⟩ := h.tallies
  refine ⟨⟨_, h.talks.present, ?_⟩, h.shows, h.orderly.belongs⟩
  rw [List.map_map]
  rfl

/-- The text that comes late is on the surface, after the announcement of a run that it does not
    come from. -/
theorem texts_belong_late : ∃ d ledger e, Booked terseCrew .empty announcingText d ledger ∧
    d.surface.panels.output.toList = [startText .run, "1"] ∧ ⟨"1", some e⟩ ∈ ledger.log ∧
      e.run < ledger.starts ∧ ∃ failure : TraceFailure, e.answer = some (.error failure.text) := by
  obtain ⟨d, ledger, e, hbooked, hlog, hstarts, -, hrun⟩ := exists_late
  obtain ⟨-, hshows, hbelongs⟩ := hbooked.texts_belong
  have hmem : ⟨"1", some e⟩ ∈ ledger.log := by simp [hlog]
  rw [hlog] at hshows
  refine ⟨d, ledger, e, hbooked, hshows, hmem, ?_⟩
  rcases hbelongs _ hmem e rfl with hpresent | hlate
  · rw [hrun, hstarts] at hpresent
    exact nomatch hpresent
  · exact hlate

/-- Not every event in the log is one of the run that was asked for last. -/
theorem not_forall_run_eq_starts :
    ¬∀ d ledger, Booked terseCrew .empty announcingText d ledger →
      ∀ chunk ∈ ledger.log, ∀ e, chunk.origin = some e → e.run = ledger.starts := by
  intro hall
  obtain ⟨d, ledger, e, hbooked, hlog, hstarts, -, hrun⟩ := exists_late
  have hpresent := hall d ledger hbooked ⟨"1", some e⟩ (by simp [hlog]) e rfl
  rw [hrun, hstarts] at hpresent
  exact nomatch hpresent

end Debugger

end Linewise
