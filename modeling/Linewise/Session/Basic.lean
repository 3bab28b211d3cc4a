import Linewise.Interpreter
import Linewise.Session.Snapshot
import Linewise.Wire.Message

/-!
# Sessions

A session loads its interpreter once and has at most one run, which every request to start or to
continue takes up to its next line or its end. What happens is told in events; they are lost, and
telling them fails, when nobody listens any more.

A run that cannot be reported goes on untraced to its end: the failure is the answer to the
request, and what the rest of the run prints follows it.
-/

namespace Linewise

open Wire (Command Event Malformed SessionId)

/-- How far the run of a session has come. -/
inductive SessionState
  | idle
  | paused (line : Line)
  | finished
  | errored
  deriving DecidableEq

namespace SessionState

/-- There is a run to go on with. -/
def canContinue : SessionState → Bool
  | paused _ => true
  | idle | finished | errored => false

/-- The description of a state. -/
def text : SessionState → String
  | idle => "no execution has been started"
  | paused line => s!"paused at line {line}"
  | finished => "the program has finished"
  | errored => "the program stopped with an error"

end SessionState

/-- Why a session could not do what it was asked. -/
inductive SessionError
  | cannotContinue (state : SessionState)
  | noExecution (state : SessionState)
  | load (fault : LoadFault)
  | malformed (complaint : Malformed)
  | channelClosed
  deriving DecidableEq

/-- The text of a session's error. -/
def SessionError.message : SessionError → String
  | cannotContinue state => s!"InvalidStateError: cannot continue: {state.text}"
  | noExecution state => s!"InvalidStateError: no active execution: {state.text}"
  | load fault => s!"LoadError: {fault.message}"
  | malformed complaint => complaint.message
  | channelClosed => "event channel closed"

/-- A session. -/
structure Session where
  id : SessionId
  limits : SnapshotLimits
  /-- What loading the interpreter gives. -/
  loader : Except LoadFault Interpreter
  /-- What loading has given, once it has been tried. -/
  loaded : Option (Except LoadFault Interpreter)
  execution : Option Execution
  state : SessionState
  /-- Somebody listens to the events. -/
  isOpen : Bool

namespace Session

/-- A session that has not been asked for anything. -/
def new (id : SessionId) (limits : SnapshotLimits) (loader : Except LoadFault Interpreter) :
    Session :=
  ⟨id, limits, loader, none, none, .idle, true⟩

/-- The session after its listener has gone. -/
def close (session : Session) : Session := { session with isOpen := false }

/-! ## Events -/

/-- What a request has led to: the session after it, all events told, and whether it failed. -/
structure Reaction where
  session : Session
  events : Array Event
  result : Except SessionError Unit

/-- An event told, if anybody listens. -/
def tell (session : Session) (events : Array Event) (event : Event) : Array Event :=
  if session.isOpen then events.push event else events

/-- An event told as the end of a request, which fails when nobody listens. -/
def reply (session : Session) (events : Array Event) (event : Event) : Reaction :=
  ⟨session, session.tell events event,
    if session.isOpen then .ok () else .error .channelClosed⟩

/-- An error told that ended a request. -/
def report (session : Session) (events : Array Event) (error : SessionError) : Array Event :=
  session.tell events (.error error.message)

/-- The watcher of a run: it tells each line with a snapshot, and each text that is printed. -/
def watcher (session : Session) : Watcher (Array Event) where
  onLine view events := do
    let scope ← Snapshot.capture session.limits view
    if session.isOpen then .ok (events.push (.lineExecuted view.line scope))
    else .error ⟨s!"failed to emit line event: {SessionError.channelClosed.message}"⟩
  onPrint text events := session.tell events (.output text)

/-! ## Loading -/

/-- What is told before the interpreter is loaded. -/
def loadingText : String := "Worker: Loading interpreter..."

/-- What is told after the interpreter has been loaded. -/
def loadedText : String := "Worker: Interpreter loaded and ready."

/-- The interpreter, loaded now unless loading has been tried before. -/
def load (session : Session) (events : Array Event) :
    Except LoadFault Interpreter × Session × Array Event :=
  match session.loaded with
  | some loaded => (loaded, session, events)
  | none =>
    let events := session.tell events (.output loadingText)
    let events := match session.loader with
      | .ok _ => session.tell events (.output loadedText)
      | .error _ => events
    (session.loader, { session with loaded := some session.loader }, events)

/-- The request to load the interpreter. -/
def initiate (session : Session) : Reaction :=
  match session.load #[] with
  | (.ok _, session, events) => session.reply events .ready
  | (.error fault, session, events) => session.reply events (.loadFailed fault.message)

/-! ## Running -/

/-- The end of a run with a fault. -/
def fail (session : Session) (events : Array Event) (fault : Fault) : Reaction :=
  { session with execution := none, state := .errored }.reply events (.error fault.text)

/-- The rest of a run that could not be reported. A fault in it is told as a text, for the request
    has been answered. -/
def finishUntraced (fuel : Nat) (session : Session) (execution : Execution)
    (events : Array Event) : Option Reaction :=
  match execution.finish session.watcher fuel fuel events with
  | none => none
  | some (outcome, _, events) =>
    let ended := { session with execution := none, state := .errored }
    match outcome with
    | .faulted fault => some (ended.reply events (.output fault.text))
    | _ => some ⟨ended, events, .ok ()⟩

/-- The next stretch of the run, `none` when it takes more than `fuel` steps. -/
def advance (fuel : Nat) (session : Session) (events : Array Event) : Option Reaction :=
  match session.execution with
  | none => some ⟨session, events, .error (.noExecution session.state)⟩
  | some execution =>
    match execution.resume session.watcher fuel events with
    | none => none
    | some (outcome, execution, events) =>
      let session := { session with execution := some execution }
      match outcome with
      | .paused line => some ⟨{ session with state := .paused line }, events, .ok ()⟩
      | .finished =>
        some ({ session with execution := none, state := .finished }.reply events .programEnd)
      | .faulted fault => some (session.fail events fault)
      | .traceFailed failure =>
        if session.isOpen then
          session.finishUntraced fuel execution (session.tell events (.error failure.text))
        else some (session.reply events (.error failure.text))

/-- The request to start a run of a script, in place of any other run. -/
def start (fuel : Nat) (session : Session) (source : String) : Option Reaction :=
  match { session with execution := none, state := .idle }.load #[] with
  | (.error fault, session, events) => some ⟨session, events, .error (.load fault)⟩
  | (.ok interpreter, session, events) =>
    match interpreter.prepare source with
    | .ok execution => { session with execution := some execution }.advance fuel events
    | .error fault => some (session.fail events fault)

/-- The request to go on with the run. -/
def proceed (fuel : Nat) (session : Session) : Option Reaction :=
  if session.state.canContinue then session.advance fuel #[]
  else some ⟨session, #[], .error (.cannotContinue session.state)⟩

/-- What a command leads to, `none` when a stretch takes more than `fuel` steps. -/
def handle (fuel : Nat) (session : Session) : Command → Option Reaction
  | .load => some session.initiate
  | .startExecution source => session.start fuel source
  | .continueExecution => session.proceed fuel

/-- The line that the run is suspended on and its variables, captured anew. -/
def currentSnapshot? (session : Session) : Option (Line × Bindings String) := do
  let view ← (← session.execution).view?
  match Snapshot.capture session.limits view with
  | .ok scope => some (view.line, scope)
  | .error _ => none

end Session

end Linewise
