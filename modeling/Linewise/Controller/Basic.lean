import Linewise.Controller.Transition
import Linewise.Session.Basic

/-!
# The controller

The controller stands between a user, a surface and a worker. It keeps the breakpoints, the state
of `ControllerState.transition` and the session of the worker it listens to, and carries out the
effects of each transition in order.

How it reaches its workers is up to its *staff*, which may fail to deliver a command. That counts
as a fault of the worker: the controller crashes, leaves the remaining effects undone, and listens
no more until it is reset.
-/

namespace Linewise

open Wire (Command Envelope SessionId)

/-- How a controller reaches its workers, which are in states from `ω`. -/
structure Staff (ω : Type) where
  /-- A command given to the present worker, `none` when it cannot be reached. -/
  send : Command → ω → Option ω
  /-- A new worker in place of the present one, and its session. -/
  hire : ω → SessionId × ω

/-- All that a controller works with. -/
structure Desk (υ ω : Type) where
  surface : Surface υ
  staff : Staff ω

/-- What a user can do. -/
inductive Action
  | run
  | step
  | reset
  /-- Add the breakpoint that a text means, if it means one. -/
  | addBreakpoint (text : String)
  | removeBreakpoint (line : Line)
  | listBreakpoints
  | quit
  deriving DecidableEq

/-- A controller, the state of its surface and that of its workers. -/
structure Controller (υ ω : Type) where
  state : ControllerState
  breakpoints : Breakpoints
  /-- The session of the present worker. -/
  session : SessionId
  surface : υ
  workers : ω

namespace Controller

/-- What is said of a worker that has gone away. -/
def workerGoneText : String := "session worker stopped unexpectedly"

variable {υ ω : Type} (desk : Desk υ ω)

/-- The controller with a change made to its surface. -/
def update (change : Update) (c : Controller υ ω) : Controller υ ω :=
  { c with surface := desk.surface.update change c.surface }

/-- The controller with its enabled controls shown. -/
def showControls (c : Controller υ ω) : Controller υ ω :=
  c.update desk (.setControls c.state.controls)

/-- The controller with its breakpoints shown. -/
def showBreakpoints (c : Controller υ ω) : Controller υ ω :=
  c.update desk (.showBreakpoints c.breakpoints.lines)

/-- What a fault of the worker leads to. -/
def crash (message : String) (c : Controller υ ω) : Controller υ ω :=
  (Controller.update desk (.appendOutput (faultText message)) { c with state := .crashed })
    |>.showControls desk

/-- The effects of a transition, in order, up to a command that cannot be delivered. -/
def perform : List Effect → Controller υ ω → Controller υ ω
  | [], c => c
  | .update change :: effects, c => perform effects (c.update desk change)
  | .replaceWorker :: effects, c =>
    let (session, workers) := desk.staff.hire c.workers
    perform effects { c with session, workers }
  | .send command :: effects, c =>
    match desk.staff.send command c.workers with
    | some workers => perform effects { c with workers }
    | none => c.crash desk SessionError.channelClosed.message

/-- What an input leads to. -/
def apply (input : Input) (c : Controller υ ω) : Controller υ ω :=
  let (state, effects) := c.state.transition c.breakpoints input
  (perform desk effects { c with state }).showControls desk

/-- A fault is an input like any other. -/
theorem apply_fault (message : String) (c : Controller υ ω) :
    c.apply desk (.fault message) = c.crash desk message :=
  rfl

/-- A controller at work: its first worker has been asked to load the interpreter. -/
def new (breakpoints : Breakpoints) (surface : υ) (workers : ω) : Controller υ ω :=
  let (session, workers) := desk.staff.hire workers
  let c := Controller.showBreakpoints desk ⟨.loading, breakpoints, session, surface, workers⟩
  (perform desk [.send .load] c).showControls desk

/-! ## The user -/

/-- The request to run the text in the editor, or to go on, up to a breakpoint. -/
def run (c : Controller υ ω) : Controller υ ω :=
  c.apply desk (.run (desk.surface.source c.surface))

/-- The request to run the text in the editor, or to go on, up to the next line. -/
def step (c : Controller υ ω) : Controller υ ω :=
  c.apply desk (.step (desk.surface.source c.surface))

/-- The request to begin afresh with a new worker. The breakpoints stay. -/
def reset (c : Controller υ ω) : Controller υ ω :=
  c.apply desk .reset

/-- The request to add the breakpoint that a text means, and the breakpoint if it means one. -/
def addBreakpoint (text : String) (c : Controller υ ω) : Option Line × Controller υ ω :=
  match Breakpoints.line? text with
  | some line =>
    (some line,
      Controller.showBreakpoints desk { c with breakpoints := c.breakpoints.insert line })
  | none => (none, c)

/-- The request to remove a breakpoint, and whether there was one. -/
def removeBreakpoint (line : Line) (c : Controller υ ω) : Bool × Controller υ ω :=
  (line ∈ c.breakpoints,
    Controller.showBreakpoints desk { c with breakpoints := c.breakpoints.erase line })

/-- What an action of the user leads to. -/
def act (c : Controller υ ω) : Action → Controller υ ω
  | .run => c.run desk
  | .step => c.step desk
  | .reset => c.reset desk
  | .addBreakpoint text => (c.addBreakpoint desk text).2
  | .removeBreakpoint line => (c.removeBreakpoint desk line).2
  | .listBreakpoints => c.showBreakpoints desk
  | .quit => c

/-! ## The worker -/

/-- What a message from a worker leads to, `none` when the present worker has gone away. Messages
    of earlier workers are dropped. -/
def receive (message : Option String) (c : Controller υ ω) : Controller υ ω :=
  match message with
  | none => c.apply desk (.fault workerGoneText)
  | some text =>
    match Envelope.decode text with
    | .error complaint => c.apply desk (.fault complaint.message)
    | .ok envelope =>
      if envelope.session = c.session then c.apply desk (.event envelope.event) else c

end Controller

end Linewise
