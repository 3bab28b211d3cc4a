import Linewise.Proofs.Session.Answer

/-!
# Sessions whose listener leaves

Whoever listens to a session may leave at any moment, also while the session is doing something. An
*audience* says after which events of an operation there is still somebody there, and everything
that a session does is repeated here before an audience: it finds out with each event that it tells
whether the event is lost.

An audience that does not change during an operation makes no difference to what the session does
anyway (`Audience.handle_constant`, `Audience.operate_text`). One that leaves meanwhile makes one:
what is told at the very end of a run that is not reported any more may be lost, and then the
session holds on to the run.
-/

namespace Linewise

open Wire (Command Event)

open Session (Reaction)

/-- Those who may listen to an operation of a session. -/
structure Audience where
  /-- There is still somebody after the first events of the operation. -/
  listens : Array Event → Bool

namespace Session

/-- The session as it finds its audience after some events. -/
def facing (session : Session) (audience : Audience) (events : Array Event) : Session :=
  { session with isOpen := audience.listens events }

@[simp]
theorem facing_state (session : Session) (audience : Audience) (events : Array Event) :
    (session.facing audience events).state = session.state :=
  rfl

@[simp]
theorem facing_execution (session : Session) (audience : Audience) (events : Array Event) :
    (session.facing audience events).execution = session.execution :=
  rfl

@[simp]
theorem facing_isOpen (session : Session) (audience : Audience) (events : Array Event) :
    (session.facing audience events).isOpen = audience.listens events :=
  rfl

end Session

/-- What a session is asked to do: to carry out a command, or to read a text that may spell one. -/
inductive Operation
  | command (command : Command)
  | text (text : String)

namespace Audience

/-- An audience that stays, or stays away, for the whole of an operation. -/
def constant (isOpen : Bool) : Audience := ⟨fun _ => isOpen⟩

variable (audience : Audience)

/-- The watcher of a run before an audience. -/
def watcher (session : Session) : Watcher (Array Event) where
  onLine view events := (session.facing audience events).watcher.onLine view events
  onPrint text events := (session.facing audience events).watcher.onPrint text events

/-- The interpreter, loaded before an audience unless loading has been tried before. -/
def load (session : Session) (events : Array Event) :
    Except LoadFault Interpreter × Session × Array Event :=
  match session.loaded with
  | some loaded => (loaded, session, events)
  | none =>
    let events := (session.facing audience events).tell events (.output Session.loadingText)
    let events := match session.loader with
      | .ok _ => (session.facing audience events).tell events (.output Session.loadedText)
      | .error _ => events
    (session.loader, { session with loaded := some session.loader }, events)

/-- The request to load the interpreter. -/
def initiate (session : Session) : Reaction :=
  match audience.load session #[] with
  | (.ok _, session, events) => (session.facing audience events).reply events .ready
  | (.error fault, session, events) =>
    (session.facing audience events).reply events (.loadFailed fault.message)

/-- The rest of a run that could not be reported. The session lets go of the run once it has told
    the fault in it. -/
def finishUntraced (fuel : Nat) (session : Session) (execution : Execution)
    (events : Array Event) : Option Reaction :=
  match execution.finish (audience.watcher session) fuel fuel events with
  | none => none
  | some (outcome, execution, events) =>
    let session := { session with execution := some execution }.facing audience events
    let ended := { session with execution := none, state := .errored }
    match outcome with
    | .faulted fault =>
      some ((if session.isOpen then ended else session).reply events (.output fault.text))
    | _ => some ⟨ended, events, .ok ()⟩

/-- The next stretch of the run, `none` when it takes more than `fuel` steps. -/
def advance (fuel : Nat) (session : Session) (events : Array Event) : Option Reaction :=
  match session.execution with
  | none => some ⟨session, events, .error (.noExecution session.state)⟩
  | some execution =>
    match execution.resume (audience.watcher session) fuel events with
    | none => none
    | some (outcome, execution, events) =>
      let session := { session with execution := some execution }.facing audience events
      match outcome with
      | .paused line => some ⟨{ session with state := .paused line }, events, .ok ()⟩
      | .finished =>
        some ({ session with execution := none, state := .finished }.reply events .programEnd)
      | .faulted fault => some (session.fail events fault)
      | .traceFailed failure =>
        if session.isOpen then
          audience.finishUntraced fuel session execution
            (session.tell events (.error failure.text))
        else some (session.reply events (.error failure.text))

/-- The request to start a run of a script. -/
def start (fuel : Nat) (session : Session) (source : String) : Option Reaction :=
  match audience.load { session with execution := none, state := .idle } #[] with
  | (.error fault, session, events) => some ⟨session, events, .error (.load fault)⟩
  | (.ok interpreter, session, events) =>
    match interpreter.prepare source with
    | .ok execution =>
      audience.advance fuel { session with execution := some execution } events
    | .error fault => some ((session.facing audience events).fail events fault)

/-- The request to go on with the run. -/
def proceed (fuel : Nat) (session : Session) : Option Reaction :=
  if session.state.canContinue then audience.advance fuel session #[]
  else some ⟨session, #[], .error (.cannotContinue session.state)⟩

/-- What a command leads to before an audience. -/
def handle (fuel : Nat) (session : Session) : Command → Option Reaction
  | .load => some (audience.initiate session)
  | .startExecution source => audience.start fuel session source
  | .continueExecution => audience.proceed fuel session

/-- A reaction whose error, if there is one, has been told as well. -/
def report (reaction : Reaction) : Reaction :=
  { reaction with
    events := match reaction.result with
      | .ok () => reaction.events
      | .error error =>
        (reaction.session.facing audience reaction.events).report reaction.events error }

/-- What an operation leads to before an audience. A text that spells no command is an error too,
    and every error is reported to whoever sent the text. -/
def operate (fuel : Nat) (session : Session) : Operation → Option Reaction
  | .command command => audience.handle fuel session command
  | .text text =>
    match Command.decode text with
    | .error complaint => some (audience.report ⟨session, #[], .error (.malformed complaint)⟩)
    | .ok command => (audience.handle fuel session command).map audience.report

/-! ## Audiences that do not change -/

variable {isOpen : Bool} {fuel : Nat}

/-- Before an audience that stays as it is, a session finds what it has found before. -/
theorem facing_constant (session : Session) (h : session.isOpen = isOpen)
    (events : Array Event) :
    session.facing (constant isOpen) events = session := by
  subst h
  rfl

theorem watcher_constant (session : Session) (h : session.isOpen = isOpen) :
    (constant isOpen).watcher session = session.watcher := by
  subst h
  rfl

theorem load_constant (session : Session) (h : session.isOpen = isOpen) (events : Array Event) :
    (constant isOpen).load session events = session.load events := by
  subst h
  rfl

/-- Loading the interpreter does not close a session. -/
theorem isOpen_load (session : Session) (events : Array Event) :
    (audience.load session events).2.1.isOpen = session.isOpen := by
  rw [load]
  split <;> rfl

/-- Before an audience that stays as it is, loading leads to what it leads to for the session
    alone. -/
theorem initiate_constant (session : Session) :
    (constant session.isOpen).initiate session = session.initiate := by
  have hopen := isOpen_load (constant session.isOpen) session #[]
  rw [load_constant session rfl] at hopen
  rw [initiate, Session.initiate, load_constant session rfl]
  generalize session.load #[] = loaded at hopen
  obtain ⟨fault | interpreter, after, told⟩ := loaded
  all_goals
    dsimp only at hopen ⊢
    rw [facing_constant after hopen]

/-- Somebody who stays is told the fault at the end of a run, so it is let go of. -/
theorem finishUntraced_constant (session : Session) (hopen : session.isOpen = true)
    (execution : Execution) (events : Array Event) :
    (constant true).finishUntraced fuel session execution events =
      session.finishUntraced fuel execution events := by
  rw [finishUntraced, Session.finishUntraced, watcher_constant session hopen]
  rcases execution.finish session.watcher fuel fuel events with _ | ⟨outcome, last, told⟩
  · rfl
  · dsimp only
    rw [facing_constant { session with execution := some last } hopen]
    rcases outcome with line | _ | fault | failure
    all_goals simp only [hopen, if_true]

/-- Before an audience that stays as it is, a stretch leads to what it leads to for the session
    alone. -/
theorem advance_constant (session : Session) (h : session.isOpen = isOpen)
    (events : Array Event) :
    (constant isOpen).advance fuel session events = session.advance fuel events := by
  rw [advance, Session.advance]
  rcases session.execution with _ | execution
  · rfl
  dsimp only
  rw [watcher_constant session h]
  rcases execution.resume session.watcher fuel events with _ | ⟨outcome, last, told⟩
  · rfl
  dsimp only
  rw [facing_constant { session with execution := some last } h]
  rcases outcome with line | _ | fault | failure
  · rfl
  · rfl
  · rfl
  · dsimp only
    -- The rest of the run is only told to those who have heard of the failure.
    split
    next hopen =>
      have hlistens : isOpen = true := h.symm.trans hopen
      rw [hlistens]
      exact finishUntraced_constant { session with execution := some last } hopen last _
    · rfl

/-- Before an audience that stays as it is, a start leads to what it leads to for the session
    alone. -/
theorem start_constant (session : Session) (source : String) :
    (constant session.isOpen).start fuel session source = session.start fuel source := by
  let fresh : Session := { session with execution := none, state := .idle }
  have hload : (constant session.isOpen).load fresh #[] = fresh.load #[] :=
    load_constant fresh rfl #[]
  have hopen := isOpen_load (constant session.isOpen) fresh #[]
  rw [start, Session.start]
  rw [hload] at hopen ⊢
  -- What loading gives is the same on both sides, and it lets nobody in or out.
  generalize fresh.load #[] = loaded at hopen ⊢
  obtain ⟨fault | interpreter, after, told⟩ := loaded
  · rfl
  · dsimp only at hopen ⊢
    rcases interpreter.prepare source with fault | execution
    · dsimp only
      rw [facing_constant after hopen]
    · exact advance_constant { after with execution := some execution } hopen told

/-- An audience that does not change leaves a session to do what it does anyway. -/
theorem handle_constant (session : Session) (command : Command) :
    (constant session.isOpen).handle fuel session command = session.handle fuel command := by
  rcases command with _ | source | _
  · rw [handle, Session.handle, initiate_constant]
  · rw [handle, Session.handle, start_constant]
  · rw [handle, Session.handle, proceed, Session.proceed, advance_constant session rfl]

end Audience

namespace Session

variable {session : Session} {events : Array Event} {reaction : Reaction} {command : Command}
  {fuel : Nat}

/-- The rest of a run does not change whether anybody listens. -/
theorem isOpen_finishUntraced {execution : Execution}
    (h : session.finishUntraced fuel execution events = some reaction) :
    reaction.session.isOpen = session.isOpen := by
  rw [finishUntraced] at h
  split at h
  · cases h
  · dsimp only at h
    split at h <;> rw [← Option.some.inj h]
    rw [reply]

/-- A stretch does not change whether anybody listens. -/
theorem isOpen_advance (h : session.advance fuel events = some reaction) :
    reaction.session.isOpen = session.isOpen := by
  rw [advance] at h
  split at h
  · rw [← Option.some.inj h]
  · split at h
    · cases h
    · dsimp only at h
      split at h
      · rw [← Option.some.inj h]
      · rw [← Option.some.inj h, reply]
      · rw [← Option.some.inj h, fail, reply]
      · split at h
        · exact isOpen_finishUntraced h
        · rw [← Option.some.inj h, reply]

/-- No command brings a listener back or sends one away. -/
theorem isOpen_handle (h : session.handle fuel command = some reaction) :
    reaction.session.isOpen = session.isOpen := by
  have hload : ∀ before : Session, (before.load #[]).2.1.isOpen = before.isOpen := by
    intro before
    rw [load]
    split <;> rfl
  rcases command with _ | source | _
  · rw [← Option.some.inj h, ← hload session, initiate]
    obtain ⟨fault | interpreter, after, told⟩ := session.load #[] <;> rfl
  · have hfresh := hload { session with execution := none, state := .idle }
    rw [handle, start] at h
    generalize Session.load _ #[] = loaded at h hfresh
    obtain ⟨fault | interpreter, after, told⟩ := loaded
    · rw [← Option.some.inj h]
      exact hfresh
    · dsimp only at h hfresh
      split at h
      · exact (isOpen_advance h).trans hfresh
      · rw [← Option.some.inj h]
        exact hfresh
  · rw [handle, proceed] at h
    split at h
    · exact isOpen_advance h
    · rw [← Option.some.inj h]

end Session

/-- An audience that does not change hears of a text what anybody does. -/
theorem Audience.operate_text (session : Session) (text : String) (fuel : Nat) :
    ((constant session.isOpen).operate fuel session (.text text)).map
      (fun reaction => (reaction.session, reaction.events)) = session.receive fuel text := by
  rw [operate, Session.receive]
  rcases Command.decode text with complaint | command
  · rfl
  dsimp only
  rw [handle_constant]
  rcases hhandle : session.handle fuel command with _ | ⟨after, told, result⟩
  · rfl
  · have hopen := Session.isOpen_handle hhandle
    rcases result with error | _
    · simp only [Option.map_some, report, facing_constant after hopen]
    · rfl

end Linewise
