import Linewise.Controller.Debugger
import Linewise.Proofs.Session.Answer

/-!
# Runs of a debugger

A run of a debugger is any interleaving of what the user does, what the worker does and what the
controller takes from the worker, for any text in the editor (`Debugger.Reachable`). No worker goes
away in it unless the user asks for another one.

The queues of the present worker hold texts. `Debugger.Talks` reads them as the commands and
the events that were put into them, and says what each step does to these.
-/

namespace Linewise

open Wire (Command Event Envelope)

namespace Worker

/-- The requests that the worker has not taken yet, oldest first. -/
def requests (worker : Worker) : List Command :=
  worker.inbox.filterMap fun text => (Command.decode text).toOption.filter Command.isRequest

/-- The responses that nobody has taken from the worker yet, oldest first. -/
def responses (worker : Worker) : List Event :=
  worker.outbox.filterMap fun text =>
    ((Envelope.decode text).toOption.map Envelope.event).filter Event.isResponse

end Worker

/-- The command that an effect sends. -/
def Effect.command? : Effect → Option Command
  | .send command => some command
  | .replaceWorker | .update _ => none

namespace Debugger

variable {υ : Type}

/-- The debugger with its present worker in another state. -/
def withWorker (d : Debugger υ) (worker : Worker) : Debugger υ :=
  { d with workers := { d.workers with present := some worker } }

/-- The states that a debugger can come to, each with all messages that its present worker has
    sent so far. -/
inductive Reachable (surface : Surface υ) (crew : Crew) (breakpoints : Breakpoints) (state : υ) :
    Debugger υ → List String → Prop
  | new : Reachable surface crew breakpoints state (.new surface crew breakpoints state) []
  /-- The user acts. A reset replaces the worker. -/
  | act {d : Debugger υ} {sent : List String} (action : Action)
      (h : Reachable surface crew breakpoints state d sent) :
      Reachable surface crew breakpoints state (Controller.act (desk surface) d action)
        (if action = .reset then [] else sent)
  /-- The user changes the surface, such as the text in the editor. -/
  | edit {d : Debugger υ} {sent : List String} (state' : υ)
      (h : Reachable surface crew breakpoints state d sent) :
      Reachable surface crew breakpoints state { d with surface := state' } sent
  /-- The worker does what it was asked next, as far as it takes. -/
  | work {d : Debugger υ} {sent : List String} {worker worker' : Worker} {fuel : Nat}
      (h : Reachable surface crew breakpoints state d sent)
      (hpresent : d.workers.present = some worker) (hwork : worker.work fuel = some worker') :
      Reachable surface crew breakpoints state (d.withWorker worker')
        (sent ++ worker'.outbox.drop worker.outbox.length)
  /-- The controller takes the next message of the worker. -/
  | deliver {d d' : Debugger υ} {sent : List String}
      (h : Reachable surface crew breakpoints state d sent)
      (hdeliver : d.deliver? surface = some d') :
      Reachable surface crew breakpoints state d' sent

/-! ## What stands in the queues -/

/-- The controller listens to its present worker, which has a given session, has been sent some
    commands that it has not taken, and has told some events that nobody has taken. -/
structure Talks (d : Debugger υ) (session : Session) (commands : List Command)
    (events : List Event) : Prop where
  present : d.workers.present =
    some ⟨session, commands.map Command.encode, events.map session.enveloped⟩
  listens : d.session = session.id
  isOpen : session.isOpen = true

variable {d : Debugger υ} {session : Session} {commands : List Command}
  {events : List Event}

/-- The requests in a queue are those among the commands that were put into it. -/
theorem Talks.requests_eq (h : d.Talks session commands events) {worker : Worker}
    (hpresent : d.workers.present = some worker) :
    worker.requests = commands.filter Command.isRequest := by
  obtain rfl := Option.some.inj (hpresent.symm.trans h.present)
  have hread : (fun text => (Command.decode text).toOption.filter Command.isRequest) ∘
      Command.encode = Option.guard Command.isRequest := by
    funext command
    rw [Function.comp, Command.decode_encode]
    rfl
  rw [Worker.requests, List.filterMap_map, hread, List.filterMap_eq_filter]

/-- The responses in a queue are those among the events that were put into it. -/
theorem Talks.responses_eq (h : d.Talks session commands events) {worker : Worker}
    (hpresent : d.workers.present = some worker) :
    worker.responses = events.filter Event.isResponse := by
  obtain rfl := Option.some.inj (hpresent.symm.trans h.present)
  have hread : (fun text => ((Envelope.decode text).toOption.map Envelope.event).filter
      Event.isResponse) ∘ session.enveloped = Option.guard Event.isResponse := by
    funext event
    rw [Function.comp, Session.enveloped, Envelope.decode_encode]
    rfl
  rw [Worker.responses, List.filterMap_map, hread, List.filterMap_eq_filter]

/-! ## What the controller does to the queues -/

/-- A change to the surface leaves the queues as they are. -/
theorem Talks.update (surface : Surface υ) (h : d.Talks session commands events) (change : Update) :
    Talks (Controller.update (desk surface) change d) session commands events :=
  ⟨h.present, h.listens, h.isOpen⟩

/-- A command that is sent goes to the end of the queue. -/
theorem Talks.send (surface : Surface υ) (h : d.Talks session commands events)
    (command : Command) :
    ∃ crew, (desk surface).staff.send command d.workers = some crew ∧
      Talks { d with workers := crew } session (commands ++ [command]) events := by
  refine ⟨_, congrArg (Option.map _) h.present, ⟨?_, h.listens, h.isOpen⟩⟩
  rw [List.map_append]
  rfl

/-- The commands of some effects go to the end of the queue, in their order, as long as the worker
    stays. -/
theorem Talks.perform (surface : Surface υ) {effects : List Effect}
    (h : d.Talks session commands events) (hstays : .replaceWorker ∉ effects) :
    Talks (Controller.perform (desk surface) effects d) session
        (commands ++ effects.filterMap Effect.command?) events ∧
      (Controller.perform (desk surface) effects d).state = d.state := by
  induction effects generalizing d commands with
  | nil => exact ⟨by rwa [List.filterMap_nil, List.append_nil], rfl⟩
  | cons effect effects ih =>
    rw [List.mem_cons, not_or] at hstays
    obtain ⟨hne, hstays⟩ := hstays
    cases effect with
    | update change => exact ih (h.update surface change) hstays
    | replaceWorker => exact absurd rfl hne
    | send command =>
      obtain ⟨crew, hsend, hafter⟩ := h.send surface command
      have hcommands : (Effect.send command :: effects).filterMap Effect.command? =
          command :: effects.filterMap Effect.command? := rfl
      rw [Controller.perform, hsend, hcommands, List.append_cons]
      exact ih hafter hstays

/-- Only a reset replaces the worker. -/
theorem replaceWorker_notMem_transition {breakpoints : Breakpoints} {state : ControllerState}
    {input : Input} (h : input ≠ .reset) :
    .replaceWorker ∉ (state.transition breakpoints input).2 := by
  cases input with
  | reset => exact absurd rfl h
  | fault message => simp [ControllerState.transition, Effect.say]
  | run source | step source =>
    cases state <;>
      simp [ControllerState.transition, ControllerState.start, ControllerState.proceed, Effect.say]
  | event event =>
    cases event <;> cases state <;>
      simp [ControllerState.transition, ControllerState.receive, Effect.say,
        ControllerState.arrive]
    split <;> simp

/-- An input other than a reset brings about the next state, and its commands go to the end of the
    queue. -/
theorem Talks.apply (surface : Surface υ) {input : Input}
    (h : d.Talks session commands events) (hinput : input ≠ .reset) :
    Talks (Controller.apply (desk surface) input d) session
        (commands ++ (d.state.transition d.breakpoints input).2.filterMap Effect.command?)
        events ∧
      (Controller.apply (desk surface) input d).state =
        (d.state.transition d.breakpoints input).1 := by
  have hnext : Talks { d with state := (d.state.transition d.breakpoints input).1 } session commands
      events := ⟨h.present, h.listens, h.isOpen⟩
  obtain ⟨htalks, hstate⟩ := hnext.perform surface
    (replaceWorker_notMem_transition hinput)
  exact ⟨htalks.update surface _, hstate⟩

/-- The session of a worker that has just been hired. -/
def freshSession (d : Debugger υ) : Session :=
  .new d.workers.nextSession d.workers.limits d.workers.loader

/-- A reset brings about a worker that has been asked to load its interpreter and has told
    nothing. -/
theorem talks_reset (surface : Surface υ) (d : Debugger υ) :
    Talks (Controller.reset (desk surface) d) d.freshSession [.load] [] ∧
      (Controller.reset (desk surface) d).state = .loading :=
  ⟨⟨rfl, rfl, rfl⟩, rfl⟩

/-- So does the beginning. -/
theorem talks_new (surface : Surface υ) (crew : Crew) (breakpoints : Breakpoints) (state : υ) :
    Talks (new surface crew breakpoints state) (.new crew.nextSession crew.limits crew.loader)
        [.load] [] ∧
      (new surface crew breakpoints state).state = .loading :=
  ⟨⟨rfl, rfl, rfl⟩, rfl⟩

/-! ## What is taken from the queues -/

/-- A message of the session that the controller listens to is the event in it. -/
theorem receive_enveloped (surface : Surface υ) (event : Event)
    (hlistens : d.session = session.id) :
    Controller.receive (desk surface) (some (session.enveloped event)) d =
      Controller.apply (desk surface) (.event event) d := by
  have hdecode := Envelope.decode_encode ⟨session.id, event⟩
  rw [Controller.receive]
  simp only [Session.enveloped, hdecode]
  exact if_pos hlistens.symm

/-- The debugger after the controller has taken the message of a given event. -/
def afterEvent (surface : Surface υ) (d : Debugger υ) (session : Session) (commands : List Command)
    (event : Event) (rest : List Event) : Debugger υ :=
  Controller.apply (desk surface) (.event event)
    (d.withWorker ⟨session, commands.map Command.encode, rest.map session.enveloped⟩)

/-- The message that the controller takes is the event that was told first. -/
theorem Talks.deliver?_cons {event : Event} {rest : List Event} (surface : Surface υ)
    (h : d.Talks session commands (event :: rest)) :
    d.deliver? surface = some (afterEvent surface d session commands event rest) := by
  have hlistens : (d.withWorker ⟨session, commands.map Command.encode,
      rest.map session.enveloped⟩).session = session.id := h.listens
  rw [deliver?, Crew.take?, h.present, afterEvent, ← receive_enveloped surface event hlistens]
  rfl

/-- The event makes its transition. -/
theorem Talks.afterEvent {event : Event} {rest : List Event} (surface : Surface υ)
    (h : d.Talks session commands (event :: rest)) :
    (afterEvent surface d session commands event rest).Talks session (commands ++
        (d.state.transition d.breakpoints (.event event)).2.filterMap Effect.command?) rest ∧
      (Debugger.afterEvent surface d session commands event rest).state =
        (d.state.transition d.breakpoints (.event event)).1 := by
  have hrest : Talks (d.withWorker ⟨session, commands.map Command.encode,
      rest.map session.enveloped⟩) session commands rest := ⟨rfl, h.listens, h.isOpen⟩
  exact hrest.apply surface (nofun : Input.event event ≠ .reset)

/-- Without an event there is no message to take. -/
theorem Talks.deliver?_nil (surface : Surface υ) (h : d.Talks session commands []) :
    d.deliver? surface = none := by
  rw [deliver?, Crew.take?, h.present]
  rfl

/-- The command that the worker takes is the one that was sent first. Without one it does
    nothing. -/
theorem Talks.work {worker worker' : Worker} {fuel : Nat} (h : d.Talks session commands events)
    (hpresent : d.workers.present = some worker) (hwork : worker.work fuel = some worker') :
    commands = [] ∧ worker' = worker ∨
      ∃ command rest after told, commands = command :: rest ∧
        session.receive fuel command.encode = some (after, told) ∧
        worker'.outbox = worker.outbox ++ told.toList.map after.enveloped ∧
        (session.Continues after →
          Talks (d.withWorker worker') after rest (events ++ told.toList)) := by
  obtain rfl := Option.some.inj (hpresent.symm.trans h.present)
  rw [Worker.work] at hwork
  cases commands with
  | nil => exact .inl ⟨rfl, (Option.some.inj hwork).symm⟩
  | cons command rest =>
    obtain ⟨⟨after, told⟩, hreceive, rfl⟩ := Option.map_eq_some_iff.1 hwork
    refine .inr ⟨command, rest, after, told, rfl, hreceive, rfl, fun hcontinues => ?_⟩
    have hsame : after.enveloped = session.enveloped := by
      funext event
      rw [Session.enveloped, Session.enveloped, hcontinues.id]
    -- The messages that are still waiting belong to the session after the command too.
    refine ⟨congrArg some ?_, h.listens.trans hcontinues.id.symm, hcontinues.isOpen.trans h.isOpen⟩
    dsimp only
    rw [List.map_append, hsame]

end Debugger

end Linewise
