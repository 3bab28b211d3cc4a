import Linewise.Controller.Crew

/-!
# The debugger

A debugger is a controller and its crew. The two share nothing but the queues of the present
worker, so every run of a debugger interleaves three kinds of steps: the user acts, the worker
takes a command, and the controller takes a message.

The loops below settle on one order of these steps. The worker does all that it has been asked
before the next message is taken, and the user, or the policy in the place of one, acts in between
(`Debugger.drive`, `Debugger.quiesce`).
-/

namespace Linewise

/-- A controller of actual workers. -/
abbrev Debugger (υ : Type) := Controller υ Crew

namespace Debugger

variable {υ : Type} (surface : Surface υ)

/-- What a debugger works with. -/
def desk : Desk υ Crew := ⟨surface, Crew.staff⟩

/-- A debugger at work, with a first worker. -/
def new (crew : Crew) (breakpoints : Breakpoints) (state : υ) : Debugger υ :=
  Controller.new (desk surface) breakpoints state crew

/-- The debugger after the worker has done all that it was asked. -/
def settle (fuel : Nat) (d : Debugger υ) : Option (Debugger υ) :=
  (Crew.settle fuel d.workers).map fun workers => { d with workers }

/-- The debugger after the controller has taken the next message, if there is one. -/
def deliver? (d : Debugger υ) : Option (Debugger υ) :=
  (Crew.take? d.workers).map fun (text, workers) =>
    Controller.receive (desk surface) (some text) { d with workers }

/-! ## Without a user -/

/-- What is to be done next where there is no user to ask. -/
inductive Directive
  /-- Take the next message of the worker. -/
  | wait
  | run
  | step
  | stop
  deriving DecidableEq

/-- What to do in which state. -/
abbrev Policy := ControllerState → Directive

/-- Run once, through all breakpoints. -/
def toCompletion : Policy
  | .loading | .awaitingPause _ => .wait
  | .idle | .paused _ => .run
  | .finished | .errored | .loadFailed | .crashed => .stop

/-- Step once through the whole program. -/
def lineByLine : Policy
  | .loading | .awaitingPause _ => .wait
  | .idle | .paused _ => .step
  | .finished | .errored | .loadFailed | .crashed => .stop

/-- What comes of one round of a policy. -/
inductive Round (υ : Type)
  /-- The policy has stopped, or has waited for a worker that is not listened to. -/
  | over
  /-- The policy waits for a message that never comes. -/
  | stuck
  | next (d : Debugger υ)

/-- One round of a policy. -/
def round (fuel : Nat) (policy : Policy) (d : Debugger υ) : Round υ :=
  match policy d.state with
  | .stop => .over
  | .run => .next (Controller.run (desk surface) d)
  | .step => .next (Controller.step (desk surface) d)
  | .wait =>
    if d.state.isListening then
      match (d.settle fuel).bind (deliver? surface) with
      | some d => .next d
      | none => .stuck
    else .over

/-- The debugger after all rounds of a policy, `none` when there are more than `rounds` of them or
    they get stuck. -/
def drive (fuel : Nat) (policy : Policy) : (rounds : Nat) → Debugger υ → Option (Debugger υ)
  | 0, _ => none
  | rounds + 1, d =>
    match d.round surface fuel policy with
    | .over => some d
    | .stuck => none
    | .next d => drive fuel policy rounds d

/-! ## With a user -/

/-- The debugger after the next message, if the controller listens and one comes; `none` when the
    worker takes more than `fuel` steps. -/
def listen (fuel : Nat) (d : Debugger υ) : Option (Option (Debugger υ)) :=
  (d.settle fuel).map fun d => if d.state.isListening then d.deliver? surface else none

/-- The debugger after all messages have been taken, `none` when it takes more than `rounds`
    rounds. -/
def quiesce (fuel : Nat) : (rounds : Nat) → Debugger υ → Option (Debugger υ)
  | 0, _ => none
  | rounds + 1, d =>
    match d.listen surface fuel with
    | none => none
    | some none => some d
    | some (some d) => quiesce fuel rounds d

end Debugger

end Linewise
