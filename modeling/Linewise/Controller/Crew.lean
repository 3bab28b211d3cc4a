import Linewise.Controller.Basic
import Linewise.Session.Worker

/-!
# The crew

The crew is a staff of actual workers: one at a time, each with a session of its own, which always
take what they are sent. A worker that is replaced is gone, with all that stands in its queues.
-/

namespace Linewise

open Wire (Command SessionId)

/-- Workers of one kind, of whom the last one is present. -/
structure Crew where
  /-- The session of the first worker. Those of the others are counted on from it. -/
  firstSession : SessionId
  limits : SnapshotLimits
  /-- What loading the interpreter gives. -/
  loader : Except LoadFault Interpreter
  /-- The number of workers hired so far. -/
  hired : Nat
  present : Option Worker

namespace Crew

/-- A crew that nobody has been hired for. -/
def new (firstSession : SessionId) (limits : SnapshotLimits)
    (loader : Except LoadFault Interpreter) : Crew :=
  ⟨firstSession, limits, loader, 0, none⟩

/-- The session of the worker that is hired next. -/
def nextSession (crew : Crew) : SessionId :=
  ⟨crew.firstSession.bits + .ofNat 128 crew.hired⟩

/-- The crew with a new worker in place of the present one. -/
def hire (crew : Crew) : SessionId × Crew :=
  (crew.nextSession,
    { crew with
      hired := crew.hired + 1
      present := some (.new (.new crew.nextSession crew.limits crew.loader)) })

/-- The crew with a command for the present worker. -/
def send (command : Command) (crew : Crew) : Option Crew :=
  crew.present.map fun worker => { crew with present := some (worker.post command.encode) }

/-- The crew as the staff of a controller. -/
def staff : Staff Crew := ⟨send, hire⟩

/-- The crew after the present worker has done all that it was asked. -/
def settle (fuel : Nat) (crew : Crew) : Option Crew :=
  match crew.present with
  | none => some crew
  | some worker =>
    (worker.settle fuel).map fun worker => { crew with present := some worker }

/-- The next message of the present worker. -/
def take? (crew : Crew) : Option (String × Crew) :=
  match crew.present with
  | none => none
  | some worker =>
    match worker.outbox with
    | [] => none
    | text :: outbox => some (text, { crew with present := some { worker with outbox } })

end Crew

end Linewise
