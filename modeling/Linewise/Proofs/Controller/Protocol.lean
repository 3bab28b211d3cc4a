import Linewise.Proofs.Controller.Agreement

/-!
# The protocol between the controller and its worker

The controller and the session of its worker only meet through two queues, and keep in step all
the same: each step of a run keeps a debugger in step (`Debugger.InStep`), whoever makes it.

* `Debugger.Reachable.requests_add_responses`: the controller waits for a pause exactly while there
  is a request or a response on its way, and there is never more than one of them. No two requests
  are under way at once, and no answer is lost.
* `Debugger.Reachable.settled_iff`: while nothing is on its way, both are in the same state, and
  the session never has to refuse a request.
-/

namespace Linewise

open Wire (Command Event Envelope)

namespace Debugger

variable {υ : Type} {surface : Surface υ} {crew : Crew} {breakpoints : Breakpoints} {state : υ}
  {d d' : Debugger υ} {sent : List String} {session : Session} {commands : List Command}
  {events told : List Event}

/-- The controller and the session of its present worker are in step: what is on its way between
    them fits both of them, and nothing that the session has told so far is the error of a request
    that it could not do. -/
structure InStep (d : Debugger υ) (sent : List String) (session : Session)
    (commands : List Command) (events told : List Event) : Prop where
  talks : d.Talks session commands events
  agrees : session.Agrees d.state (commands.filter Command.isRequest)
    (events.filter Event.isResponse)
  ready : .ready ∈ events → session.HasInterpreter
  sent_eq : sent = told.map session.enveloped
  harmless : ∀ event ∈ told, ¬event.IsViolation

/-- A debugger that has just got a worker is in step. -/
theorem inStep_fresh (htalks : d.Talks session [.load] [] ∧ d.state = .loading)
    (hfresh : session.state = .idle) : d.InStep [] session [.load] [] [] := by
  refine ⟨htalks.1, ?_, nofun, rfl, nofun⟩
  rw [htalks.2]
  exact .loading hfresh

/-- Breakpoints and the surface do not matter. -/
theorem InStep.of_same (h : d.InStep sent session commands events told)
    (hstate : d'.state = d.state) (hsession : d'.session = d.session)
    (hworkers : d'.workers = d.workers) : d'.InStep sent session commands events told := by
  refine ⟨⟨?_, ?_, h.talks.isOpen⟩, ?_, h.ready, h.sent_eq, h.harmless⟩
  · rw [hworkers, h.talks.present]
  · rw [hsession, h.talks.listens]
  · rw [hstate]
    exact h.agrees

/-- A debugger stays in step when the user touches a control. -/
theorem InStep.control (h : d.InStep sent session commands events told) (surface : Surface υ)
    {input : Input} {source : String} (hinput : input = .run source ∨ input = .step source) :
    ∃ commands', InStep (Controller.apply (desk surface) input d) sent session commands' events
      told := by
  have hnotReset : input ≠ .reset := by rcases hinput with rfl | rfl <;> exact nofun
  obtain ⟨htalks, hstate⟩ := h.talks.apply surface hnotReset
  refine ⟨_, htalks, ?_, h.ready, h.sent_eq, h.harmless⟩
  rw [hstate, List.filter_append]
  exact h.agrees.control d.breakpoints hinput

/-- A debugger stays in step when the user acts, with a new session after a reset. -/
theorem InStep.act (h : d.InStep sent session commands events told) (surface : Surface υ)
    (action : Action) : ∃ session' commands' events' told',
      InStep (Controller.act (desk surface) d action) (if action = .reset then [] else sent)
        session' commands' events' told' := by
  cases action with
  | run =>
    obtain ⟨commands', h⟩ := h.control surface (.inl rfl)
    exact ⟨session, commands', events, told, h⟩
  | step =>
    obtain ⟨commands', h⟩ := h.control surface (.inr rfl)
    exact ⟨session, commands', events, told, h⟩
  | reset => exact ⟨_, _, _, _, inStep_fresh (talks_reset surface d) rfl⟩
  | addBreakpoint text =>
    refine ⟨session, commands, events, told, ?_⟩
    rw [Controller.act, Controller.addBreakpoint]
    cases Breakpoints.line? text with
    | none => exact h
    | some line => exact h.of_same rfl rfl rfl
  | removeBreakpoint line => exact ⟨session, commands, events, told, h.of_same rfl rfl rfl⟩
  | listBreakpoints => exact ⟨session, commands, events, told, h.of_same rfl rfl rfl⟩
  | quit => exact ⟨session, commands, events, told, h⟩

/-- A debugger stays in step when the controller takes a message. -/
theorem InStep.deliver (h : d.InStep sent session commands events told)
    (hdeliver : d.deliver? surface = some d') :
    ∃ commands' events', d'.InStep sent session commands' events' told := by
  cases events with
  | nil =>
    rw [h.talks.deliver?_nil surface] at hdeliver
    cases hdeliver
  | cons event rest =>
    obtain rfl := Option.some.inj ((h.talks.deliver?_cons surface).symm.trans hdeliver)
    obtain ⟨htalks, hstate⟩ := h.talks.afterEvent surface
    have hready : .ready ∈ rest → session.HasInterpreter := fun hmem =>
      h.ready (List.mem_cons_of_mem _ hmem)
    have hagrees := h.agrees
    refine ⟨_, rest, htalks, ?_, hready, h.sent_eq, h.harmless⟩
    rw [hstate, List.filter_append]
    -- A response ends the request that is on its way; any other event leaves it alone.
    by_cases hresponse : event.isResponse = true
    · rw [List.filter_cons_of_pos hresponse] at hagrees
      exact hagrees.respond d.breakpoints
    · rw [List.filter_cons_of_neg hresponse] at hagrees
      refine hagrees.notice d.breakpoints (Bool.eq_false_iff.2 hresponse) ?_
      rintro rfl
      exact h.ready List.mem_cons_self

/-- A debugger is in step after its worker has taken a command if the session after it fits. -/
theorem InStep.of_receive {worker worker' : Worker} {after : Session} {rest : List Command}
    {new : List Event} (h : d.InStep sent session commands events told)
    (hcontinues : session.Continues after)
    (houtbox : worker'.outbox = worker.outbox ++ new.map after.enveloped)
    (htalks : (d.withWorker worker').Talks after rest (events ++ new))
    (hagrees : after.Agrees d.state (rest.filter Command.isRequest)
      (events.filter Event.isResponse ++ new.filter Event.isResponse))
    (hready : .ready ∈ new → session.HasInterpreter)
    (hharmless : ∀ event ∈ new, ¬event.IsViolation) :
    (d.withWorker worker').InStep (sent ++ worker'.outbox.drop worker.outbox.length) after rest
      (events ++ new) (told ++ new) := by
  have hsame : after.enveloped = session.enveloped := by
    funext event
    rw [Session.enveloped, Session.enveloped, hcontinues.id]
  refine ⟨htalks, ?_, fun hmem => ?_, ?_, fun event hmem => ?_⟩
  · rw [List.filter_append]
    exact hagrees
  · rcases List.mem_append.1 hmem with hold | hnew
    · exact hcontinues.hasInterpreter (h.ready hold)
    · exact hcontinues.hasInterpreter (hready hnew)
  · rw [houtbox, List.drop_left, h.sent_eq, hsame, List.map_append]
  · rcases List.mem_append.1 hmem with hold | hnew
    · exact h.harmless event hold
    · exact hharmless event hnew

/-- Besides texts, a command leads to one event. -/
theorem eq_or_eq_output {texts more : List String} {response event : Event}
    (h : event ∈ Session.outputs texts ++ response :: Session.outputs more) :
    event = response ∨ ∃ text, event = .output text := by
  rcases List.mem_append.1 h with hbefore | hafter
  · obtain ⟨text, -, rfl⟩ := List.mem_map.1 hbefore
    exact .inr ⟨text, rfl⟩
  · rcases List.mem_cons.1 hafter with rfl | hmore
    · exact .inl rfl
    · obtain ⟨text, -, rfl⟩ := List.mem_map.1 hmore
      exact .inr ⟨text, rfl⟩

/-- A debugger stays in step when the worker answers a request. -/
theorem InStep.of_request {worker worker' : Worker} {command : Command} {rest : List Command}
    {after : Session} {new : Array Event} {fuel : Nat}
    (h : d.InStep sent session (command :: rest) events told) (hrequest : command.isRequest = true)
    (hreceive : session.receive fuel command.encode = some (after, new))
    (houtbox : worker'.outbox = worker.outbox ++ new.toList.map after.enveloped)
    (htalks : session.Continues after →
      (d.withWorker worker').Talks after rest (events ++ new.toList)) :
    (d.withWorker worker').InStep (sent ++ worker'.outbox.drop worker.outbox.length) after rest
      (events ++ new.toList) (told ++ new.toList) := by
  have hagrees := h.agrees
  rw [List.filter_cons_of_pos hrequest] at hagrees
  obtain ⟨hcontinues, texts, response, more, hresponse, hnew, hshows⟩ :=
    Session.receive_request h.talks.isOpen hrequest hreceive
  have hafter := hshows hagrees.accepts
  -- The response takes the place of the request; the texts around it answer nothing.
  refine h.of_receive hcontinues houtbox (htalks hcontinues) ?_ ?_ ?_
  · rw [hnew, List.filter_append, List.filter_cons_of_pos hresponse,
      Session.filter_outputs, Session.filter_outputs]
    exact hagrees.take hcontinues hafter
  · intro hmem
    rw [hnew] at hmem
    rcases eq_or_eq_output hmem with rfl | ⟨text, htext⟩
    · cases hresponse
    · cases htext
  · intro event hmem
    rw [hnew] at hmem
    rcases eq_or_eq_output hmem with rfl | ⟨text, rfl⟩
    · exact hafter.not_isViolation
    · exact nofun

/-- A debugger stays in step when the worker loads its interpreter. -/
theorem InStep.of_load {worker worker' : Worker} {rest : List Command} {after : Session}
    {new : Array Event} {fuel : Nat} (h : d.InStep sent session (.load :: rest) events told)
    (hreceive : session.receive fuel Command.load.encode = some (after, new))
    (houtbox : worker'.outbox = worker.outbox ++ new.toList.map after.enveloped)
    (htalks : session.Continues after →
      (d.withWorker worker').Talks after rest (events ++ new.toList)) :
    (d.withWorker worker').InStep (sent ++ worker'.outbox.drop worker.outbox.length) after rest
      (events ++ new.toList) (told ++ new.toList) := by
  obtain ⟨hcontinues, hstate, hexecution, texts, notice, hnew, hnotice⟩ :=
    Session.receive_load h.talks.isOpen hreceive
  have hmore : new.toList = Session.outputs texts ++ notice :: Session.outputs [] := hnew
  -- Loading is answered by no response, so nothing that is under way changes.
  refine h.of_receive hcontinues houtbox (htalks hcontinues) ?_ ?_ ?_
  · have hquiet : [notice].filter Event.isResponse = [] := by
      rcases hnotice with ⟨rfl, -⟩ | ⟨message, rfl⟩ <;> rfl
    rw [hnew, List.filter_append, Session.filter_outputs, hquiet, List.append_nil, List.append_nil]
    exact h.agrees.of_same hcontinues hstate hexecution
  · intro hmem
    rw [hmore] at hmem
    rcases hnotice with ⟨-, hinterpreter⟩ | ⟨message, rfl⟩
    · exact hinterpreter
    · rcases eq_or_eq_output hmem with hready | ⟨text, hready⟩ <;> cases hready
  · intro event hmem
    rw [hmore] at hmem
    rcases eq_or_eq_output hmem with rfl | ⟨text, rfl⟩
    · rcases hnotice with ⟨rfl, -⟩ | ⟨message, rfl⟩ <;> exact nofun
    · exact nofun

/-- A debugger stays in step when the worker does what it was asked. -/
theorem InStep.work {worker worker' : Worker} {fuel : Nat}
    (h : d.InStep sent session commands events told)
    (hpresent : d.workers.present = some worker) (hwork : worker.work fuel = some worker') :
    ∃ session' commands' events' told', (d.withWorker worker').InStep
      (sent ++ worker'.outbox.drop worker.outbox.length) session' commands' events' told' := by
  rcases h.talks.work hpresent hwork with ⟨rfl, rfl⟩ |
    ⟨command, rest, after, new, rfl, hreceive, houtbox, htalks⟩
  · -- Without a command the worker waits.
    refine ⟨session, [], events, told, ?_⟩
    rw [List.drop_length, List.append_nil]
    refine h.of_same rfl rfl ?_
    rw [withWorker, ← hpresent]
  · by_cases hrequest : command.isRequest = true
    · exact ⟨after, rest, _, _, h.of_request hrequest hreceive houtbox htalks⟩
    · obtain rfl : command = .load := by
        cases command with
        | load => rfl
        | _ => exact absurd rfl hrequest
      exact ⟨after, rest, _, _, h.of_load hreceive houtbox htalks⟩

/-- A debugger is in step in every state that it can come to. -/
theorem Reachable.inStep (h : Reachable surface crew breakpoints state d sent) :
    ∃ session commands events told, d.InStep sent session commands events told := by
  induction h with
  | new => exact ⟨_, _, _, _, inStep_fresh (talks_new surface crew breakpoints state) rfl⟩
  | act action _ ih =>
    obtain ⟨session, commands, events, told, h⟩ := ih
    exact h.act surface action
  | edit state' _ ih =>
    obtain ⟨session, commands, events, told, h⟩ := ih
    exact ⟨session, commands, events, told, h.of_same rfl rfl rfl⟩
  | work _ hpresent hwork ih =>
    obtain ⟨session, commands, events, told, h⟩ := ih
    exact h.work hpresent hwork
  | deliver _ hdeliver ih =>
    obtain ⟨session, commands, events, told, h⟩ := ih
    obtain ⟨commands', events', h⟩ := h.deliver hdeliver
    exact ⟨session, commands', events', told, h⟩

/-! ## A small debugger -/

/-- A surface that shows nothing and keeps the text in its editor. -/
def editor : Surface String := ⟨fun text => text, fun _ text => text⟩

/-- A crew whose workers can load their interpreters. -/
def smallCrew : Crew := .new ⟨0⟩ ⟨10, 10⟩ (.ok ⟨10, 10⟩)

/-- The session of its first worker. -/
def smallSession : Session := .new smallCrew.nextSession smallCrew.limits smallCrew.loader

/-- The session once it has loaded its interpreter. -/
def loadedSession : Session := { smallSession with loaded := some smallCrew.loader }

/-- What the session tells meanwhile. -/
def loadEvents : List Event :=
  [.output Session.loadingText, .output Session.loadedText, .ready]

/-- The small debugger comes to wait for the user. -/
theorem exists_idle (text : String) : ∃ d sent,
    Reachable editor smallCrew .empty text d sent ∧ d.state = .idle ∧ d.surface = text ∧
      d.Talks loadedSession [] [] := by
  obtain ⟨htalks, -⟩ := talks_new editor smallCrew .empty text
  have hnew : Reachable editor smallCrew .empty text (new editor smallCrew .empty text) [] := .new
  have hreceive : smallSession.receive 0 Command.load.encode =
      some (loadedSession, loadEvents.toArray) := by
    rw [Session.receive, Command.decode_encode]
    rfl
  have hwork : Worker.work 0 ⟨smallSession, [Command.load.encode], []⟩ =
      some ⟨loadedSession, [], loadEvents.map loadedSession.enveloped⟩ := by
    rw [Worker.work]
    simp only [hreceive]
    rfl
  -- The worker loads its interpreter, and the controller takes the three messages of it.
  have hloaded := hnew.work htalks.present hwork
  have htalks₀ : ((new editor smallCrew .empty text).withWorker
      ⟨loadedSession, [], loadEvents.map loadedSession.enveloped⟩).Talks loadedSession []
        loadEvents := ⟨rfl, rfl, rfl⟩
  have hfirst := hloaded.deliver (htalks₀.deliver?_cons editor)
  have htalks₁ := (htalks₀.afterEvent editor).1
  have hsecond := hfirst.deliver (htalks₁.deliver?_cons editor)
  have htalks₂ := (htalks₁.afterEvent editor).1
  have hthird := hsecond.deliver (htalks₂.deliver?_cons editor)
  have htalks₃ := (htalks₂.afterEvent editor).1
  exact ⟨_, _, hthird, rfl, rfl, htalks₃⟩

/-- The small debugger comes to wait for a line after the user has asked for one. -/
theorem exists_awaiting (text : String) : ∃ d sent,
    Reachable editor smallCrew .empty text d sent ∧ d.state = .awaitingPause .step ∧
      d.Talks loadedSession [.startExecution text] [] := by
  obtain ⟨d, sent, hreach, hstate, hsurface, htalks⟩ := exists_idle text
  obtain ⟨hstart, hnext⟩ := htalks.apply editor (nofun : Input.step text ≠ .reset)
  rw [hstate] at hstart hnext
  have hact : Reachable editor smallCrew .empty text
      (Controller.apply (desk editor) (.step d.surface) d) sent := hreach.act .step
  rw [hsurface] at hact
  exact ⟨_, sent, hact, hnext, hstart⟩

/-! ## No overlapping request and no lost answer -/

/-- In every state that a debugger can come to, all that stands in the two queues of its worker can
    be read, and the requests and the responses among it are one in all while the controller waits
    for a pause, and none in any other state. This holds whether the interpreter can be loaded
    or not. -/
theorem Reachable.requests_add_responses
    (h : Reachable surface crew breakpoints state d sent) :
    ∃ worker, d.workers.present = some worker ∧
      (∀ text ∈ worker.inbox, ∃ command, Command.decode text = .ok command) ∧
      (∀ text ∈ worker.outbox, ∃ event, Envelope.decode text = .ok ⟨d.session, event⟩) ∧
      worker.requests.length + worker.responses.length =
        if d.state.isAwaitingPause then 1 else 0 := by
  obtain ⟨session, commands, events, told, h⟩ := h.inStep
  refine ⟨_, h.talks.present, ?_, ?_, ?_⟩
  · intro text hmem
    obtain ⟨command, -, rfl⟩ := List.mem_map.1 hmem
    exact ⟨command, command.decode_encode⟩
  · intro text hmem
    obtain ⟨event, -, rfl⟩ := List.mem_map.1 hmem
    rw [h.talks.listens]
    exact ⟨event, Envelope.decode_encode ⟨session.id, event⟩⟩
  · rw [h.talks.requests_eq h.talks.present, h.talks.responses_eq h.talks.present]
    exact h.agrees.length_add_length

/-- The small debugger has one request on its way while the user waits for the first line. -/
theorem requests_add_responses_awaiting : ∃ d sent,
    Reachable editor smallCrew .empty "pass" d sent ∧ d.state = .awaitingPause .step ∧
      ∃ worker, d.workers.present = some worker ∧
        (∀ text ∈ worker.inbox, ∃ command, Command.decode text = .ok command) ∧
        (∀ text ∈ worker.outbox, ∃ event, Envelope.decode text = .ok ⟨d.session, event⟩) ∧
        worker.requests.length + worker.responses.length = 1 := by
  obtain ⟨d, sent, hreach, hstate, -⟩ := exists_awaiting "pass"
  obtain ⟨worker, hpresent, hinbox, houtbox, hlength⟩ := hreach.requests_add_responses
  rw [hstate] at hlength
  exact ⟨d, sent, hreach, hstate, worker, hpresent, hinbox, houtbox, hlength⟩

/-! ## Agreement at rest -/

/-- In every state that a debugger can come to, the controller is paused on a line, finished or
    errored exactly if the session of its worker is, unless there is a request or a response on its
    way. No message of the worker tells of a request that the session could not do. This holds
    whether the interpreter can be loaded or not. -/
theorem Reachable.settled_iff (h : Reachable surface crew breakpoints state d sent) :
    ∃ worker, d.workers.present = some worker ∧
      (worker.requests = [] → worker.responses = [] →
        (∀ line, d.state = .paused line ↔ worker.session.state = .paused line) ∧
        (d.state = .finished ↔ worker.session.state = .finished) ∧
        (d.state = .errored ↔ worker.session.state = .errored)) ∧
      ∀ text ∈ sent, ∃ event, Envelope.decode text = .ok ⟨worker.session.id, event⟩ ∧
        ¬event.IsViolation := by
  obtain ⟨session, commands, events, told, h⟩ := h.inStep
  refine ⟨_, h.talks.present, ?_, ?_⟩
  · rw [h.talks.requests_eq h.talks.present, h.talks.responses_eq h.talks.present]
    intro hrequests hresponses
    have hagrees := h.agrees
    rw [hrequests, hresponses] at hagrees
    exact hagrees.state_iff
  · intro text hmem
    rw [h.sent_eq] at hmem
    obtain ⟨event, hevent, rfl⟩ := List.mem_map.1 hmem
    exact ⟨event, Envelope.decode_encode ⟨session.id, event⟩, h.harmless event hevent⟩

/-- The small debugger and its session are paused on the first line once the answer has come. -/
theorem settled_iff_paused : ∃ d sent, Reachable editor smallCrew .empty "pass" d sent ∧
    d.state = .paused 1 ∧ ∃ worker, d.workers.present = some worker ∧ worker.requests = [] ∧
      worker.responses = [] ∧ worker.session.state = .paused 1 ∧
        ∀ text ∈ sent, ∃ event, Envelope.decode text = .ok ⟨worker.session.id, event⟩ ∧
          ¬event.IsViolation := by
  obtain ⟨d, sent, hreach, hstate, htalks⟩ := exists_awaiting "pass"
  obtain ⟨execution, hreceive⟩ : ∃ execution,
      loadedSession.receive 1 (Command.startExecution "pass").encode =
        some ({ loadedSession with execution := some execution, state := .paused 1 },
          #[.lineExecuted 1 .empty]) := by
    rw [Session.receive, Command.decode_encode]
    exact ⟨_, rfl⟩
  let after : Session := { loadedSession with execution := some execution, state := .paused 1 }
  have hwork : Worker.work 1 ⟨loadedSession, [(Command.startExecution "pass").encode], []⟩ =
      some ⟨after, [], [after.enveloped (.lineExecuted 1 .empty)]⟩ := by
    rw [Worker.work]
    simp only [hreceive]
    rfl
  -- The worker runs up to the first line, and the controller takes its answer.
  have hanswered := hreach.work htalks.present hwork
  have htalks₁ : (d.withWorker ⟨after, [], [after.enveloped (.lineExecuted 1 .empty)]⟩).Talks
      after [] [.lineExecuted 1 .empty] := ⟨rfl, htalks.listens, rfl⟩
  have hpaused := hanswered.deliver (htalks₁.deliver?_cons editor)
  obtain ⟨htalks₂, hnext⟩ := htalks₁.afterEvent editor
  have hawaiting : (d.withWorker ⟨after, [], [after.enveloped (.lineExecuted 1 .empty)]⟩).state =
      .awaitingPause .step := hstate
  rw [hawaiting] at htalks₂ hnext
  obtain ⟨worker, hpresent, hiff, hsent⟩ := hpaused.settled_iff
  have hrequests := htalks₂.requests_eq hpresent
  have hresponses := htalks₂.responses_eq hpresent
  have hstate₁ := ((hiff hrequests hresponses).1 1).1 hnext
  exact ⟨_, _, hpaused, hnext, worker, hpresent, hrequests, hresponses, hstate₁, hsent⟩

end Debugger

end Linewise
