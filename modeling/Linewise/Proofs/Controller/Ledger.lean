import Linewise.Proofs.Controller.Tracking

/-!
# Ledgers

An output event does not say which run it comes from. A *ledger* does: it notes for every event
that a worker tells how many runs the worker had begun by then and which response it had given to
the command already, for every text in the log which event it came with, and how many runs the
controller has asked the worker for.

While nothing that a worker has told of an earlier run is left when the next one is asked for, a
text in the log belongs to the run that was asked for last. All that may be left is what a worker
tells after the response to a request, and this is the rest of a run that could not be reported
(`Emission.Lags`). So a ledger stays orderly (`Ledger.Orderly`) when the user touches a control,
when a command is taken and when an event is.
-/

namespace Linewise

open Wire (Command Event)

/-- The command begins a run. -/
def Wire.Command.begins : Command → Bool
  | .startExecution _ => true
  | .load | .continueExecution => false

/-- An event that a worker has told. -/
structure Emission where
  event : Event
  /-- How many runs the worker had begun by then. -/
  run : Nat
  /-- The response to the command, if it had been given before. -/
  answer : Option Event

/-- The events that a worker tells of a command, after a response to it or before one. -/
def emissions (run : Nat) : (answer : Option Event) → List Event → List Emission
  | _, [] => []
  | answer, event :: events =>
    ⟨event, run, answer⟩ ::
      emissions run (if event.isResponse then some event else answer) events

/-- A text in the log, and the event that it came with unless the user has caused it. -/
structure Chunk where
  text : String
  origin : Option Emission

/-- The texts that have been added to the log since it was cleared, after one more change. -/
def Update.chunks (origin : Option Emission) (chunks : List Chunk) : Update → List Chunk
  | .appendOutput text => chunks ++ [⟨text, origin⟩]
  | .clearOutput => []
  | .showVariables .. | .clearVariables | .showBreakpoints _ | .setControls _ => chunks

/-- What there is to know of the present worker and of the log. -/
structure Ledger where
  /-- The runs that the worker has been asked for. -/
  starts : Nat
  /-- The runs that it has begun. -/
  begun : Nat
  /-- The events that nobody has taken from it yet, oldest first. -/
  pending : List Emission
  /-- The texts that have been added to the log since it was cleared. -/
  log : List Chunk

namespace Ledger

/-- The ledger of a worker that has not been asked for a run, and of an empty log. -/
def blank : Ledger := ⟨0, 0, [], []⟩

/-- The ledger after an effect of an input that came with an event, or with none. -/
def enter (origin : Option Emission) (ledger : Ledger) : Effect → Ledger
  | .send command => { ledger with starts := ledger.starts + command.begins.toNat }
  | .replaceWorker => { ledger with starts := 0, begun := 0, pending := [] }
  | .update change => { ledger with log := change.chunks origin ledger.log }

/-- The ledger after some effects. -/
def perform (origin : Option Emission) (effects : List Effect) (ledger : Ledger) : Ledger :=
  effects.foldl (enter origin) ledger

/-- The ledger after the worker has taken a command and told some events of it. -/
def take (begins : Bool) (told : List Event) (ledger : Ledger) : Ledger :=
  { ledger with
    begun := ledger.begun + begins.toNat
    pending := ledger.pending ++ emissions (ledger.begun + begins.toNat) none told }

/-- The ledger after the controller has taken the next event. -/
def deliver (breakpoints : Breakpoints) (state : ControllerState) (ledger : Ledger) : Ledger :=
  match ledger.pending with
  | [] => ledger
  | emission :: pending =>
    { ledger with pending }.perform (some emission)
      (state.transition breakpoints (.event emission.event)).2

end Ledger

/-! ## Emissions -/

namespace Emission

/-- The event is a text. -/
def IsText (e : Emission) : Prop := ∃ text, e.event = .output text

/-- The event was told after the run could not be reported any more. -/
def IsLate (e : Emission) : Prop := ∃ failure : TraceFailure, e.answer = some (.error failure.text)

/-- The event is one of the run that was asked for last, or it was told late in an earlier one. -/
def Belongs (starts : Nat) (e : Emission) : Prop := e.run = starts ∨ e.run < starts ∧ e.IsLate

/-- The event is a text that may be left when the next run is asked for. -/
structure Lags (starts : Nat) (e : Emission) : Prop where
  isText : e.IsText
  isLate : e.IsLate
  le : e.run ≤ starts

variable {starts run : Nat} {e : Emission} {answer : Option Event} {response : Event}
  {told : List Event}

/-- A text that lags behind belongs to its own run, or is one of the late ones. -/
theorem Lags.belongs (h : e.Lags starts) : e.Belongs starts := by
  rcases Nat.eq_or_lt_of_le h.le with heq | hlt
  · exact .inl heq
  · exact .inr ⟨hlt, h.isLate⟩

theorem Lags.succ (h : e.Lags starts) : e.Lags (starts + 1) :=
  ⟨h.isText, h.isLate, Nat.le_succ_of_le h.le⟩

/-- The emissions of a command are its events, in order. -/
theorem map_event_emissions (run : Nat) (answer : Option Event) (told : List Event) :
    (emissions run answer told).map Emission.event = told := by
  induction told generalizing answer with
  | nil => rfl
  | cons event told ih => rw [emissions, List.map_cons, ih]

/-- Texts leave the response as it was. -/
theorem emissions_outputs (run : Nat) (answer : Option Event) (texts : List String)
    (rest : List Event) :
    emissions run answer (Session.outputs texts ++ rest) =
      texts.map (fun text => ⟨.output text, run, answer⟩) ++ emissions run answer rest := by
  induction texts with
  | nil => rfl
  | cons text texts ih => exact congrArg _ ih

/-- What is told of a request are texts, the response, and late texts. -/
theorem exists_emissions_eq (h : Session.Responds response told) (run : Nat) :
    ∃ texts late, emissions run none told = texts ++ ⟨response, run, none⟩ :: late ∧
      (∀ e ∈ texts, e.IsText ∧ e.run = run) ∧ ∀ e ∈ late, e.Lags run := by
  obtain ⟨hresponse, texts, rest, rfl, hrest⟩ := h
  have hlate : emissions run none (response :: Session.outputs rest) =
      ⟨response, run, none⟩ :: rest.map fun text => ⟨.output text, run, some response⟩ := by
    have houtputs := emissions_outputs run (some response) rest []
    rw [List.append_nil, emissions, List.append_nil] at houtputs
    rw [emissions, if_pos hresponse, houtputs]
  refine ⟨_, _, by rw [emissions_outputs, hlate], fun e he => ?_, fun e he => ?_⟩
  · obtain ⟨text, -, rfl⟩ := List.mem_map.1 he
    exact ⟨⟨text, rfl⟩, rfl⟩
  · obtain ⟨text, htext, rfl⟩ := List.mem_map.1 he
    obtain ⟨failure, rfl⟩ := hrest (List.ne_nil_of_mem htext)
    exact ⟨⟨text, rfl⟩, ⟨failure, rfl⟩, Nat.le_refl run⟩

end Emission

/-! ## Effects -/

namespace Ledger

variable {origin : Option Emission} {effects : List Effect} {ledger : Ledger}

/-- Only changes to the surface matter to the log. -/
theorem log_perform (origin : Option Emission) (effects : List Effect) (ledger : Ledger) :
    (ledger.perform origin effects).log =
      (effects.filterMap Effect.update?).foldl (Update.chunks origin) ledger.log := by
  induction effects generalizing ledger with
  | nil => rfl
  | cons effect effects ih =>
    rw [perform, List.foldl_cons, ← perform, ih]
    cases effect <;> rfl

/-- What the worker has told stays with it. -/
theorem pending_perform (hstays : .replaceWorker ∉ effects) (origin : Option Emission)
    (ledger : Ledger) : (ledger.perform origin effects).pending = ledger.pending := by
  induction effects generalizing ledger with
  | nil => rfl
  | cons effect effects ih =>
    rw [List.mem_cons, not_or] at hstays
    rw [perform, List.foldl_cons, ← perform, ih hstays.2]
    cases effect with
    | replaceWorker => exact absurd rfl hstays.1
    | send command => rfl
    | update change => rfl

end Ledger

/-! ## Order -/

/-- The controller waits for nothing but the user. -/
def ControllerState.IsResting : ControllerState → Prop
  | .idle | .paused _ | .finished | .errored | .loadFailed => True
  | .loading | .awaitingPause _ | .crashed => False

namespace Ledger

/-- How a ledger stands to the state of the controller and to the commands that the worker has not
    taken. -/
inductive Phase (ledger : Ledger) : ControllerState → List Command → Prop
  | loading (hstarts : ledger.starts = 0) (hbegun : ledger.begun = 0)
      (hpending : ledger.pending = []) : Phase ledger .loading [.load]
  /-- The worker has tried to load its interpreter. -/
  | loaded {texts : List Emission} {notice : Emission} (hbegun : ledger.begun = ledger.starts)
      (hpending : ledger.pending = texts ++ [notice])
      (htexts : ∀ e ∈ texts, e.IsText ∧ e.run = ledger.starts)
      (hnotice : notice.event = .ready ∨ ∃ message, notice.event = .loadFailed message)
      (hrun : notice.run = ledger.starts) : Phase ledger .loading []
  /-- Nothing is under way but what lags behind. -/
  | resting {state : ControllerState} (hstate : state.IsResting)
      (hbegun : ledger.begun = ledger.starts) (hlags : ∀ e ∈ ledger.pending, e.Lags ledger.starts) :
      Phase ledger state []
  /-- A request is on its way. -/
  | asked {mode : RunMode} {command : Command} (hrequest : command.isRequest = true)
      (hbegun : ledger.begun + command.begins.toNat = ledger.starts)
      (hlags : ∀ e ∈ ledger.pending, e.Lags ledger.starts) :
      Phase ledger (.awaitingPause mode) [command]
  /-- A response is on its way, after the texts before it. -/
  | answered {mode : RunMode} {texts late : List Emission} {response : Emission}
      (hbegun : ledger.begun = ledger.starts)
      (hpending : ledger.pending = texts ++ response :: late)
      (htexts : ∀ e ∈ texts, e.IsText ∧ e.Belongs ledger.starts)
      (hresponse : response.event.isResponse = true) (hrun : response.run = ledger.starts)
      (hlags : ∀ e ∈ late, e.Lags ledger.starts) : Phase ledger (.awaitingPause mode) []

/-- The ledger is in order: what is under way fits the state of the controller, and every event in
    the log belongs there. -/
structure Orderly (ledger : Ledger) (state : ControllerState) (commands : List Command) :
    Prop where
  phase : ledger.Phase state commands
  belongs : ∀ chunk ∈ ledger.log, ∀ e, chunk.origin = some e → e.Belongs ledger.starts

variable {ledger : Ledger} {state : ControllerState} {commands : List Command}

/-- The commands that an input makes the controller send. -/
def asked (breakpoints : Breakpoints) (state : ControllerState) (input : Input) : List Command :=
  (state.transition breakpoints input).2.filterMap Effect.command?

/-- A ledger without runs is in order while the first worker loads. -/
theorem orderly_fresh (h : ledger.starts = 0 ∧ ledger.begun = 0 ∧ ledger.pending = [])
    (hlog : ∀ chunk ∈ ledger.log, chunk.origin = none) : ledger.Orderly .loading [.load] := by
  refine ⟨.loading h.1 h.2.1 h.2.2, fun chunk hchunk e he => ?_⟩
  exact nomatch (hlog chunk hchunk).symm.trans he

/-! ## Controls -/

/-- A run that is asked for begins with an empty log, and nothing of an earlier one is left but what
    lags behind. -/
theorem orderly_start (hbegun : ledger.begun = ledger.starts)
    (hlags : ∀ e ∈ ledger.pending, e.Lags ledger.starts) (mode : RunMode) (source : String) :
    (ledger.perform none (ControllerState.start mode source).2).Orderly (.awaitingPause mode)
      [.startExecution source] := by
  refine ⟨.asked rfl (congrArg (· + 1) hbegun) fun e he => (hlags e he).succ, ?_⟩
  intro chunk hchunk e he
  obtain rfl : chunk = ⟨startText mode, none⟩ := List.mem_singleton.1 hchunk
  exact nomatch he

/-- A ledger stays in order when the user touches a control. -/
theorem Orderly.control (h : ledger.Orderly state commands) (breakpoints : Breakpoints)
    (mode : RunMode) (source : String) :
    (ledger.perform none (state.transition breakpoints (mode.input source)).2).Orderly
      (state.transition breakpoints (mode.input source)).1
      (commands ++ asked breakpoints state (mode.input source)) := by
  obtain ⟨hphase, hbelongs⟩ := h
  cases hphase with
  | loading hstarts hbegun hpending =>
    cases mode <;> exact ⟨.loading hstarts hbegun hpending, hbelongs⟩
  | loaded hbegun hpending htexts hnotice hrun =>
    cases mode <;> exact ⟨.loaded hbegun hpending htexts hnotice hrun, hbelongs⟩
  | asked hrequest hbegun hlags =>
    cases mode <;> exact ⟨.asked hrequest hbegun hlags, hbelongs⟩
  | answered hbegun hpending htexts hresponse hrun hlags =>
    cases mode <;> exact ⟨.answered hbegun hpending htexts hresponse hrun hlags, hbelongs⟩
  | resting hstate hbegun hlags =>
    have hsame : ledger.Orderly state [] := ⟨.resting hstate hbegun hlags, hbelongs⟩
    cases state with
    | idle => cases mode <;> exact orderly_start hbegun hlags _ source
    | paused line => cases mode <;> exact ⟨.asked rfl hbegun hlags, hbelongs⟩
    | errored =>
      -- A run may start again after an error, but not step by step.
      cases mode with
      | run => exact orderly_start hbegun hlags .run source
      | step => exact hsame
    | finished => cases mode <;> exact hsame
    | loadFailed => cases mode <;> exact hsame
    | loading | awaitingPause _ | crashed => exact False.elim hstate

/-! ## The worker -/

/-- A ledger stays in order when the worker loads its interpreter. -/
theorem Orderly.load {texts : List String} {notice : Event}
    (h : ledger.Orderly state (.load :: commands))
    (hnotice : notice = .ready ∨ ∃ message, notice = .loadFailed message) :
    (ledger.take false (Session.outputs texts ++ [notice])).Orderly state commands := by
  obtain ⟨hphase, hbelongs⟩ := h
  cases hphase with
  | asked hrequest => exact nomatch hrequest
  | loading hstarts hbegun hpending =>
    have hemissions : (ledger.take false (Session.outputs texts ++ [notice])).pending =
        texts.map (fun text => ⟨.output text, ledger.begun, none⟩) ++
          [⟨notice, ledger.begun, none⟩] := by
      rw [take, hpending, Emission.emissions_outputs]
      rfl
    have hrun : ledger.begun = ledger.starts := hbegun.trans hstarts.symm
    refine ⟨.loaded hrun hemissions (fun e he => ?_) hnotice hrun, hbelongs⟩
    obtain ⟨text, -, rfl⟩ := List.mem_map.1 he
    exact ⟨⟨text, rfl⟩, hrun⟩

/-- A ledger stays in order when the worker answers a request. -/
theorem Orderly.request {command : Command} {response : Event} {told : List Event}
    (h : ledger.Orderly state (command :: commands)) (hrequest : command.isRequest = true)
    (hresponds : Session.Responds response told) :
    (ledger.take command.begins told).Orderly state commands := by
  obtain ⟨hphase, hbelongs⟩ := h
  cases hphase with
  | loading => exact nomatch hrequest
  | asked _ hbegun hlags =>
    obtain ⟨texts, late, hemissions, htexts, hlate⟩ :=
      Emission.exists_emissions_eq hresponds ledger.starts
    have hpending : (ledger.take command.begins told).pending =
        (ledger.pending ++ texts) ++ ⟨response, ledger.starts, none⟩ :: late := by
      rw [take, hbegun, hemissions, List.append_assoc]
    refine ⟨.answered hbegun hpending (fun e he => ?_) hresponds.1 rfl hlate, hbelongs⟩
    rcases List.mem_append.1 he with hold | hnew
    · exact ⟨(hlags e hold).isText, (hlags e hold).belongs⟩
    · exact ⟨(htexts e hnew).1, .inl (htexts e hnew).2⟩

/-! ## The controller -/

/-- What an event adds to the log belongs there if the event does. -/
theorem belongs_append {e : Emission} {starts : Nat} {log : List Chunk}
    (hlog : ∀ chunk ∈ log, ∀ e, chunk.origin = some e → e.Belongs starts)
    (he : e.Belongs starts) (text : String) :
    ∀ chunk ∈ log ++ [⟨text, some e⟩], ∀ e, chunk.origin = some e → e.Belongs starts := by
  intro chunk hchunk e' he'
  rcases List.mem_append.1 hchunk with hold | hnew
  · exact hlog chunk hold e' he'
  · obtain rfl := List.mem_singleton.1 hnew
    obtain rfl := Option.some.inj he'
    exact he

/-- A text that is taken only goes to the log. -/
theorem orderly_text {e : Emission} {rest : List Emission}
    (hlog : ∀ chunk ∈ ledger.log, ∀ e, chunk.origin = some e → e.Belongs ledger.starts)
    (hpending : ledger.pending = e :: rest) (htext : e.IsText) (he : e.Belongs ledger.starts)
    (hphase : ∀ log, Phase { ledger with pending := rest, log } state commands)
    (breakpoints : Breakpoints) :
    (ledger.deliver breakpoints state).Orderly (state.transition breakpoints (.event e.event)).1
      (commands ++ asked breakpoints state (.event e.event)) := by
  obtain ⟨text, htext⟩ := htext
  have hdeliver : ledger.deliver breakpoints state =
      { ledger with pending := rest, log := ledger.log ++ [⟨text, some e⟩] } := by
    rw [deliver, hpending]
    dsimp only
    rw [htext]
    rfl
  have hcommands : commands ++ asked breakpoints state (.event e.event) = commands := by
    rw [htext]
    exact List.append_nil commands
  rw [hdeliver, hcommands, htext]
  exact ⟨hphase _, belongs_append hlog he text⟩

/-- A response leaves nothing under way but what lags behind, or one more request. -/
theorem orderly_response {e : Emission} {rest : List Emission}
    (hlog : ∀ chunk ∈ ledger.log, ∀ e, chunk.origin = some e → e.Belongs ledger.starts)
    (hpending : ledger.pending = e :: rest) (hresponse : e.event.isResponse = true)
    (hrun : e.run = ledger.starts) (hbegun : ledger.begun = ledger.starts)
    (hlags : ∀ e ∈ rest, e.Lags ledger.starts) (breakpoints : Breakpoints) (mode : RunMode) :
    (ledger.deliver breakpoints (.awaitingPause mode)).Orderly
      ((ControllerState.awaitingPause mode).transition breakpoints (.event e.event)).1
      (asked breakpoints (.awaitingPause mode) (.event e.event)) := by
  have hsaid := belongs_append hlog (Or.inl hrun)
  rw [deliver, hpending]
  obtain ⟨event, run, answer⟩ := e
  cases event with
  | programEnd => exact ⟨.resting trivial hbegun hlags, hsaid _⟩
  | error message => exact ⟨.resting trivial hbegun hlags, hsaid _⟩
  | lineExecuted line scope =>
    dsimp only
    rw [asked, ControllerState.transition, ControllerState.receive, ControllerState.arrive]
    by_cases hstops : mode.stopsAt line breakpoints = true
    · rw [if_pos hstops]
      exact ⟨.resting trivial hbegun hlags, hsaid _⟩
    · rw [if_neg hstops]
      exact ⟨.asked rfl hbegun hlags, hlog⟩
  | ready | loadFailed _ | output _ => cases hresponse

/-- A ledger stays in order when the controller takes an event. -/
theorem Orderly.deliver {e : Emission} {rest : List Emission} (h : ledger.Orderly state commands)
    (hpending : ledger.pending = e :: rest) (breakpoints : Breakpoints) :
    (ledger.deliver breakpoints state).Orderly (state.transition breakpoints (.event e.event)).1
      (commands ++ asked breakpoints state (.event e.event)) := by
  obtain ⟨hphase, hlog⟩ := h
  -- A text leaves everything as it is but the log, so only what comes after the texts matters.
  cases hphase with
  | loading _ _ hnone => exact nomatch hnone.symm.trans hpending
  | resting hstate hbegun hlags =>
    rw [hpending, List.forall_mem_cons] at hlags
    exact orderly_text hlog hpending hlags.1.isText hlags.1.belongs
      (fun _ => .resting hstate hbegun hlags.2) breakpoints
  | asked hrequest hbegun hlags =>
    rw [hpending, List.forall_mem_cons] at hlags
    exact orderly_text hlog hpending hlags.1.isText hlags.1.belongs
      (fun _ => .asked hrequest hbegun hlags.2) breakpoints
  | @loaded texts notice hbegun htold htexts hnotice hrun =>
    cases texts with
    | cons text texts =>
      obtain ⟨rfl, rfl⟩ := List.cons.inj (htold.symm.trans hpending)
      rw [List.forall_mem_cons] at htexts
      exact orderly_text hlog hpending htexts.1.1 (.inl htexts.1.2)
        (fun _ => .loaded hbegun rfl htexts.2 hnotice hrun) breakpoints
    | nil =>
      obtain ⟨rfl, rfl⟩ := List.cons.inj (htold.symm.trans hpending)
      rw [Ledger.deliver, hpending]
      obtain ⟨event, run, answer⟩ := notice
      rcases hnotice with hready | ⟨message, hfailed⟩
      · subst hready
        exact ⟨.resting trivial hbegun nofun, hlog⟩
      · subst hfailed
        exact ⟨.resting trivial hbegun nofun, belongs_append hlog (.inl hrun) _⟩
  | @answered mode texts late response hbegun htold htexts hresponse hrun hlags =>
    cases texts with
    | cons text texts =>
      obtain ⟨rfl, rfl⟩ := List.cons.inj (htold.symm.trans hpending)
      rw [List.forall_mem_cons] at htexts
      exact orderly_text hlog hpending htexts.1.1 htexts.1.2
        (fun _ => .answered hbegun rfl htexts.2 hresponse hrun hlags) breakpoints
    | nil =>
      obtain ⟨rfl, rfl⟩ := List.cons.inj (htold.symm.trans hpending)
      exact orderly_response hlog hpending hresponse hrun hbegun hlags breakpoints mode

end Ledger

end Linewise
