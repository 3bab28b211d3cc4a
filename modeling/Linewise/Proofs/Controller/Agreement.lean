import Linewise.Proofs.Controller.Reachable

/-!
# Agreement of a session with a controller

A session agrees with the state of a controller, the requests on their way to it and the responses
on their way back (`Session.Agrees`) if there is at most one of them in all: a request that the
session accepts or a response that shows its state, while the controller waits for a pause, and
none while both rest in the same state.

Agreement is kept by everything that happens to the two: a control that the user touches
(`Session.Agrees.control`), a request that is taken (`Session.Agrees.take`), a response that
arrives (`Session.Agrees.respond`) and any other event (`Session.Agrees.notice`).
-/

namespace Linewise

open Wire (Command Event Envelope)

/-! ## Texts of errors -/

/-- How the errors of a session start that could not do what it was asked, because it was in no
    state for it or had no interpreter. -/
def violationSigns : List String := ["InvalidStateError:", "LoadError:"]

/-- The event tells of such an error. -/
def Wire.Event.IsViolation : Event → Prop
  | .error message => ∃ sign ∈ violationSigns, sign.toList <+: message.toList
  | _ => False

/-- A text is no such error if it starts with a name that differs from their names. -/
theorem not_isViolation_append {name : String}
    (hname : ∀ sign ∈ violationSigns, ¬sign.toList <+: name.toList ∧ ¬name.toList <+: sign.toList)
    (rest : String) : ¬(Event.error (name ++ rest)).IsViolation := by
  rintro ⟨sign, hsign, hprefix⟩
  rw [String.toList_append] at hprefix
  rcases List.prefix_or_prefix_of_prefix hprefix (List.prefix_append _ _) with hstart | hstart
  · exact (hname sign hsign).1 hstart
  · exact (hname sign hsign).2 hstart

/-- The text of a fault starts with its class. -/
theorem Fault.not_isViolation (fault : Fault) : ¬(Event.error fault.text).IsViolation := by
  have hclass : ∀ kind : FaultClass, ∀ sign ∈ violationSigns,
      ¬sign.toList <+: kind.name.toList ∧ ¬kind.name.toList <+: sign.toList := by
    intro kind
    cases kind <;> decide
  rw [text, String.append_assoc, String.append_assoc]
  exact not_isViolation_append (hclass fault.cause.kind) _

/-- The text of a failure of the watcher starts with a name of its own. -/
theorem TraceFailure.not_isViolation (failure : TraceFailure) :
    ¬(Event.error failure.text).IsViolation := by
  have hname : ∀ sign ∈ violationSigns, ¬sign.toList <+: "TraceCaptureError: ".toList ∧
      ¬"TraceCaptureError: ".toList <+: sign.toList := by decide
  exact not_isViolation_append hname failure.reason

/-- No response that shows the state of its session is the error of a request that could not be
    done. -/
theorem Session.Shows.not_isViolation {session : Session} {response : Event}
    (h : session.Shows response) : ¬response.IsViolation := by
  cases h with
  | fault fault => exact fault.not_isViolation
  | traceFailure failure => exact failure.not_isViolation
  | line => exact nofun
  | finished => exact nofun

/-! ## Agreement -/

/-- The controller has asked for a pause and waits for it. -/
def ControllerState.isAwaitingPause : ControllerState → Bool
  | .awaitingPause _ => true
  | .loading | .loadFailed | .idle | .paused _ | .finished | .errored | .crashed => false

namespace Session

/-- The session has an interpreter, or will have one once it loads it. -/
def HasInterpreter (session : Session) : Prop := ∃ loaded, session.interpreter = .ok loaded

/-- The session is where a controller takes it to be that waits for nothing. -/
def IsSettled (session : Session) : ControllerState → Prop
  | .idle => session.state = .idle
  | .paused line => session.state = .paused line ∧ session.execution.isSome = true
  | .finished => session.state = .finished
  | .errored => session.state = .errored
  | .loading | .loadFailed | .awaitingPause _ | .crashed => False

/-- How a session stands to the state of its controller, the requests that are on their way to it
    and the responses that are on their way back. -/
inductive Agrees (session : Session) : ControllerState → List Command → List Event → Prop
  | loading (hstate : session.state = .idle) : Agrees session .loading [] []
  | loadFailed (hstate : session.state = .idle) : Agrees session .loadFailed [] []
  | settled {state : ControllerState} (hready : session.HasInterpreter)
      (h : session.IsSettled state) : Agrees session state [] []
  /-- A request is on its way. -/
  | asked {command : Command} (mode : RunMode) (hready : session.HasInterpreter)
      (h : session.Accepts command) : Agrees session (.awaitingPause mode) [command] []
  /-- A response is on its way. -/
  | answered {response : Event} (mode : RunMode) (hready : session.HasInterpreter)
      (h : session.Shows response) : Agrees session (.awaitingPause mode) [] [response]

variable {session after : Session} {state : ControllerState} {command : Command}
  {requests : List Command} {responses : List Event} {response : Event}

/-- A session that goes on keeps its interpreter. -/
theorem Continues.hasInterpreter (h : session.Continues after) (hready : session.HasInterpreter) :
    after.HasInterpreter := by
  obtain ⟨loaded, hloaded⟩ := hready
  exact ⟨loaded, h.interpreter.trans hloaded⟩

/-- A paused session can go on. -/
theorem accepts_continueExecution {line : Line} (hstate : session.state = .paused line)
    (he : session.execution.isSome = true) : session.Accepts .continueExecution := by
  rw [Accepts, hstate]
  exact ⟨rfl, he⟩

/-- Loading the interpreter changes nothing that the controller relies on. -/
theorem Agrees.of_same (h : session.Agrees state requests responses)
    (hcontinues : session.Continues after) (hstate : after.state = session.state)
    (hexecution : after.execution = session.execution) : after.Agrees state requests responses := by
  cases h with
  | loading h => exact .loading (hstate.trans h)
  | loadFailed h => exact .loadFailed (hstate.trans h)
  | settled hready h =>
    refine .settled (hcontinues.hasInterpreter hready) ?_
    cases state <;> simp_all [IsSettled]
  | asked mode hready h =>
    refine .asked mode (hcontinues.hasInterpreter hready) ?_
    cases hrequest : ‹Command› with
    | load => trivial
    | startExecution source => exact hcontinues.hasInterpreter hready
    | continueExecution =>
      rw [hrequest] at h
      exact ⟨hstate ▸ h.1, hexecution ▸ h.2⟩
  | answered mode hready h =>
    refine .answered mode (hcontinues.hasInterpreter hready) ?_
    cases h with
    | line line scope h he => exact .line line scope (hstate.trans h) (hexecution ▸ he)
    | finished h => exact .finished (hstate.trans h)
    | fault fault h => exact .fault fault (hstate.trans h)
    | traceFailure failure h => exact .traceFailure failure (hstate.trans h)

/-- The requests among the commands that an input makes the controller send. -/
def asks (breakpoints : Breakpoints) (state : ControllerState) (input : Input) : List Command :=
  ((state.transition breakpoints input).2.filterMap Effect.command?).filter Command.isRequest

/-- A control that the user touches sends a request that the session accepts, or nothing. -/
theorem Agrees.control (h : session.Agrees state requests responses) (breakpoints : Breakpoints)
    {input : Input} {source : String} (hinput : input = .run source ∨ input = .step source) :
    session.Agrees (state.transition breakpoints input).1
      (requests ++ asks breakpoints state input) responses := by
  cases h with
  | loading hstate => rcases hinput with rfl | rfl <;> exact .loading hstate
  | loadFailed hstate => rcases hinput with rfl | rfl <;> exact .loadFailed hstate
  | asked mode hready h => rcases hinput with rfl | rfl <;> exact .asked mode hready h
  | answered mode hready h => rcases hinput with rfl | rfl <;> exact .answered mode hready h
  | settled hready h =>
    cases state with
    | idle => rcases hinput with rfl | rfl <;> exact .asked _ hready hready
    | paused line =>
      have haccepts := accepts_continueExecution h.1 h.2
      rcases hinput with rfl | rfl <;> exact .asked _ hready haccepts
    | errored =>
      -- A run may start again after an error, but not step by step.
      rcases hinput with rfl | rfl
      · exact .asked _ hready hready
      · exact .settled hready h
    | finished => rcases hinput with rfl | rfl <;> exact .settled hready h
    | _ => exact False.elim h

/-- A response puts the controller in the state that it shows, from which the run may go on at
    once. -/
theorem Agrees.respond (h : session.Agrees state requests (response :: responses))
    (breakpoints : Breakpoints) :
    session.Agrees (state.transition breakpoints (.event response)).1
      (requests ++ asks breakpoints state (.event response)) responses := by
  cases h with
  | answered mode hready h =>
    cases h with
    | finished hstate => exact .settled hready hstate
    | fault fault hstate => exact .settled hready hstate
    | traceFailure failure hstate => exact .settled hready hstate
    | line line scope hstate he =>
      have haccepts := accepts_continueExecution hstate he
      rw [asks, ControllerState.transition, ControllerState.receive, ControllerState.arrive]
      -- Where the controller does not stop, it asks to go on before anybody else can.
      by_cases hstops : mode.stopsAt line breakpoints = true
      · rw [if_pos hstops]
        exact .settled hready ⟨hstate, he⟩
      · rw [if_neg hstops]
        exact .asked mode hready haccepts

/-- A request on its way is accepted. -/
theorem Agrees.accepts (h : session.Agrees state (command :: requests) responses) :
    session.Accepts command := by
  cases h with
  | asked _ _ haccepts => exact haccepts

/-- A request that is taken has its response on its way from then on. -/
theorem Agrees.take (h : session.Agrees state (command :: requests) responses)
    (hcontinues : session.Continues after) (hshows : after.Shows response) :
    after.Agrees state requests (responses ++ [response]) := by
  cases h with
  | asked mode hready _ => exact .answered mode (hcontinues.hasInterpreter hready) hshows

/-- Any other event leaves the controller where it is, unless it waits for the interpreter. -/
theorem Agrees.notice (h : session.Agrees state requests responses) (breakpoints : Breakpoints)
    {event : Event} (hevent : event.isResponse = false)
    (hready : event = .ready → session.HasInterpreter) :
    session.Agrees (state.transition breakpoints (.event event)).1
      (requests ++ asks breakpoints state (.event event)) responses := by
  have hsame : session.Agrees state (requests ++ []) responses := by rwa [List.append_nil]
  cases event with
  | output text => exact hsame
  | ready =>
    cases state with
    | loading =>
      cases h with
      | loading hstate => exact .settled (hready rfl) hstate
      | settled _ h => exact False.elim h
    | _ => exact hsame
  | loadFailed message =>
    cases state with
    | loading =>
      cases h with
      | loading hstate => exact .loadFailed hstate
      | settled _ h => exact False.elim h
    | _ => exact hsame
  | _ => cases hevent

/-- There is one request or response on its way while the controller waits for a pause, and none in
    any other state. -/
theorem Agrees.length_add_length (h : session.Agrees state requests responses) :
    requests.length + responses.length = if state.isAwaitingPause then 1 else 0 := by
  cases h with
  | loading => rfl
  | loadFailed => rfl
  | asked => rfl
  | answered => rfl
  | settled _ h =>
    cases state with
    | awaitingPause mode => exact False.elim h
    | _ => rfl

/-- While nothing is on its way, both are paused on the same line, finished or errored, or none of
    the two is. -/
theorem Agrees.state_iff (h : session.Agrees state [] []) :
    (∀ line, state = .paused line ↔ session.state = .paused line) ∧
      (state = .finished ↔ session.state = .finished) ∧
        (state = .errored ↔ session.state = .errored) := by
  cases h with
  | loading hstate => simp [hstate]
  | loadFailed hstate => simp [hstate]
  | settled _ h =>
    cases state with
    | idle => simp [show session.state = .idle from h]
    | paused line => simp [h.1]
    | finished => simp [show session.state = .finished from h]
    | errored => simp [show session.state = .errored from h]
    | _ => exact False.elim h

end Session

end Linewise
