import Linewise.Session.Basic

/-!
# Workers

A worker owns a session and talks by text alone, over two queues: it takes commands from one of
them, oldest first and one at a time, and puts the events of its session into the other, each in
an envelope. A text that is no command, and a command that fails, are answered with an error
event.
-/

namespace Linewise

open Wire (Command Envelope Event SessionId)

namespace Session

/-- What a text leads to: the session after it and all events told, `none` when a stretch of the
    run takes more than `fuel` steps. -/
def receive (fuel : Nat) (session : Session) (text : String) : Option (Session × Array Event) :=
  match Command.decode text with
  | .error complaint => some (session, session.report #[] (.malformed complaint))
  | .ok command =>
    match session.handle fuel command with
    | none => none
    | some reaction =>
      match reaction.result with
      | .ok () => some (reaction.session, reaction.events)
      | .error error =>
        some (reaction.session, reaction.session.report reaction.events error)

/-- The text of an event of a session. -/
def enveloped (session : Session) (event : Event) : String :=
  Envelope.encode ⟨session.id, event⟩

end Session

/-- A worker and its two queues. -/
structure Worker where
  session : Session
  /-- The texts that the worker has not taken yet, oldest first. -/
  inbox : List String
  /-- The messages that nobody has taken from the worker yet, oldest first. -/
  outbox : List String

namespace Worker

/-- A worker that has not been sent anything. -/
def new (session : Session) : Worker := ⟨session, [], []⟩

/-- The worker with one more text to take. -/
def post (worker : Worker) (text : String) : Worker :=
  { worker with inbox := worker.inbox ++ [text] }

/-- The worker after the next text in its inbox, if there is one. -/
def work (fuel : Nat) (worker : Worker) : Option Worker :=
  match worker.inbox with
  | [] => some worker
  | text :: inbox =>
    (worker.session.receive fuel text).map fun (session, events) =>
      ⟨session, inbox, worker.outbox ++ events.toList.map session.enveloped⟩

/-- The worker after all texts in its inbox. -/
def settle (fuel : Nat) (worker : Worker) : Option Worker :=
  worker.inbox.foldlM (fun worker _ => worker.work fuel) worker

end Worker

end Linewise
