import Linewise.Controller.Breakpoints
import Linewise.Controller.Surface
import Linewise.Wire.Message

/-!
# Transitions of the controller

What the user and the worker do to the controller, as a pure function: from a state and an input
to the next state and the effects that bring it about (`ControllerState.transition`). Controls
that are not enabled, and events that nobody waits for, change nothing.

The worker is asked for one thing at a time. A start or a request to go on is sent only in the
states in which no such request is under way, and leads to `awaitingPause`, in which no other one
is sent before the answer to it.
-/

namespace Linewise

open Wire (Command Event)

/-- What the user wants of a run. -/
inductive RunMode
  /-- To go on up to a breakpoint. -/
  | run
  /-- To stop before every line. -/
  | step
  deriving DecidableEq

namespace RunMode

/-- The name of a mode as users read it. -/
def label : RunMode → String
  | run => "Run"
  | step => "Step"

/-- The run stops before a line. -/
def stopsAt (mode : RunMode) (line : Line) (breakpoints : Breakpoints) : Bool :=
  match mode with
  | step => true
  | run => line ∈ breakpoints

end RunMode

/-- What the controller waits for. -/
inductive ControllerState
  /-- The worker has been asked to load its interpreter. -/
  | loading
  /-- The worker cannot load its interpreter. -/
  | loadFailed
  /-- No run has been started. -/
  | idle
  /-- The worker has been asked to start or to go on, and has not answered. -/
  | awaitingPause (mode : RunMode)
  | paused (line : Line)
  | finished
  /-- The run ended with an error. -/
  | errored
  /-- The worker has misbehaved or gone away. -/
  | crashed
  deriving DecidableEq

/-- What happens to the controller. -/
inductive Input
  | run (source : String)
  | step (source : String)
  | reset
  | event (event : Event)
  /-- The worker has misbehaved or gone away. -/
  | fault (message : String)
  deriving DecidableEq

/-- What the controller does about an input. -/
inductive Effect
  | send (command : Command)
  /-- A new worker in place of the present one. -/
  | replaceWorker
  | update (change : Update)
  deriving DecidableEq

/-- A text added to the output. -/
def Effect.say (text : String) : Effect := update (.appendOutput text)

/-! ## Texts -/

/-- The text that announces a run. -/
def startText (mode : RunMode) : String := s!"Starting execution in {mode.label} mode..."

/-- The text that announces a pause. -/
def pauseText (line : Line) : String := s!"Execution paused at line {line}."

/-- The text that announces the end of a run. -/
def finishText : String := "--- Program Finished ---"

/-- The text that announces a reset. -/
def resetText : String := "Debugger state reset."

/-- The text of an error in a run. -/
def errorText (message : String) : String := s!"RUNTIME ERROR: {message}"

/-- The text of a failure to load the interpreter. -/
def loadErrorText (message : String) : String := s!"LOAD ERROR: {message}"

/-- The text of a fault of the worker. -/
def faultText (message : String) : String := s!"WORKER ERROR: {message}"

namespace ControllerState

/-- The controls that are enabled in a state. One can always reset and add breakpoints. -/
def controls : ControllerState → Controls
  | idle | paused _ => ⟨true, true, true, true⟩
  | errored => ⟨true, false, true, true⟩
  | loading | loadFailed | awaitingPause _ | finished | crashed => ⟨false, false, true, true⟩

/-- The worker's events are still worth waiting for. -/
def isListening : ControllerState → Bool
  | crashed => false
  | _ => true

/-- The start of a run. -/
def start (mode : RunMode) (source : String) : ControllerState × List Effect :=
  (awaitingPause mode,
    [.update .clearOutput, .update .clearVariables, .say (startText mode),
      .send (.startExecution source)])

/-- The request to go on with a run. -/
def proceed (mode : RunMode) : ControllerState × List Effect :=
  (awaitingPause mode, [.send .continueExecution])

/-- What comes of a line that is about to run. -/
def arrive (mode : RunMode) (breakpoints : Breakpoints) (line : Line)
    (scope : Bindings String) : ControllerState × List Effect :=
  if mode.stopsAt line breakpoints then
    (paused line, [.update (.showVariables line scope), .say (pauseText line)])
  else
    (awaitingPause mode, [.update (.showVariables line scope), .send .continueExecution])

/-- What comes of an event. Output is shown in every state, and so are errors, which end a run
    unless the interpreter is not loaded or the worker has gone. -/
def receive (breakpoints : Breakpoints) (state : ControllerState) :
    Event → ControllerState × List Effect
  | .output text => (state, [.say text])
  | .ready =>
    match state with
    | loading => (idle, [])
    | _ => (state, [])
  | .loadFailed message =>
    match state with
    | loading => (loadFailed, [.say (loadErrorText message)])
    | _ => (state, [])
  | .lineExecuted line scope =>
    match state with
    | awaitingPause mode => arrive mode breakpoints line scope
    | _ => (state, [])
  | .programEnd =>
    match state with
    | awaitingPause _ | paused _ => (finished, [.say finishText])
    | _ => (state, [])
  | .error message =>
    match state with
    | idle | awaitingPause _ | paused _ | finished | errored =>
      (errored, [.say (errorText message)])
    | loading | loadFailed | crashed => (state, [.say (errorText message)])

/-- The next state and the effects of an input. -/
def transition (breakpoints : Breakpoints) (state : ControllerState) :
    Input → ControllerState × List Effect
  | .reset =>
    (loading,
      [.update .clearOutput, .update .clearVariables, .replaceWorker, .say resetText, .send .load])
  | .fault message => (crashed, [.say (faultText message)])
  | .event event => state.receive breakpoints event
  | .run source =>
    match state with
    | idle | errored => start .run source
    | paused _ => proceed .run
    | _ => (state, [])
  | .step source =>
    match state with
    | idle => start .step source
    | paused _ => proceed .step
    | _ => (state, [])

end ControllerState

end Linewise
