import Linewise.Proofs.Session.History

/-!
# A new run in an old session

A request to start a run discards the one that the session has, and nothing of it or of any earlier
one is left. Two sessions with the same limits and the same loader, which have loaded their
interpreters, answer the request and all that is asked after it alike, whatever they were asked
before (`Session.observe_start`).

There are two reasons. Nothing of a session but its run, its state and what loading has given ever
changes (`Session.Heard.keepsSetup`), and a request to start a run resets the first two. And the
name of a session makes no difference to what it does (`Session.handle_renamed`).
-/

namespace Linewise

open Wire (Command Event SessionId)

namespace Session

variable {session after : Session} {events : Array Event} {reaction : Reaction}
  {command : Command} {told : List Event} {execution : Execution} {fuel : Nat}
  {id id₁ id₂ : SessionId} {limits : SnapshotLimits} {loader : Except LoadFault Interpreter}

/-! ## What requests leave alone -/

/-- One session is set up as the other one is. -/
structure KeepsSetup (before after : Session) : Prop where
  id : after.id = before.id
  limits : after.limits = before.limits
  loader : after.loader = before.loader
  isOpen : after.isOpen = before.isOpen

namespace KeepsSetup

theorem refl (session : Session) : session.KeepsSetup session := ⟨rfl, rfl, rfl, rfl⟩

theorem trans {a b c : Session} (hab : a.KeepsSetup b) (hbc : b.KeepsSetup c) : a.KeepsSetup c :=
  ⟨hbc.id.trans hab.id, hbc.limits.trans hab.limits, hbc.loader.trans hab.loader,
    hbc.isOpen.trans hab.isOpen⟩

theorem load (session : Session) (events : Array Event) :
    session.KeepsSetup (session.load events).2.1 := by
  rw [Session.load]
  split
  · exact refl session
  · exact ⟨rfl, rfl, rfl, rfl⟩

theorem finishUntraced (h : session.finishUntraced fuel execution events = some reaction) :
    session.KeepsSetup reaction.session := by
  rw [Session.finishUntraced] at h
  split at h
  · cases h
  · dsimp only at h
    split at h <;> cases h <;> exact ⟨rfl, rfl, rfl, rfl⟩

/-- A stretch keeps the set-up of the session. -/
theorem advance (h : session.advance fuel events = some reaction) :
    session.KeepsSetup reaction.session := by
  rw [Session.advance] at h
  split at h
  · cases h
    exact refl session
  · split at h
    · cases h
    next outcome last told hresume =>
      have hholds : session.KeepsSetup { session with execution := some last } :=
        ⟨rfl, rfl, rfl, rfl⟩
      cases outcome with
      | paused line => cases h; exact ⟨rfl, rfl, rfl, rfl⟩
      | finished => cases h; exact ⟨rfl, rfl, rfl, rfl⟩
      | faulted fault => cases h; exact ⟨rfl, rfl, rfl, rfl⟩
      | traceFailed failure =>
        dsimp only at h
        split at h
        · exact hholds.trans (finishUntraced h)
        · cases h; exact ⟨rfl, rfl, rfl, rfl⟩

/-- A command keeps the set-up of the session. -/
theorem handle (h : session.handle fuel command = some reaction) :
    session.KeepsSetup reaction.session := by
  cases command with
  | load =>
    have hload := load session #[]
    rw [← Option.some.inj h, initiate]
    generalize session.load #[] = loaded at hload
    obtain ⟨fault | interpreter, after, told⟩ := loaded
    · exact hload
    · exact hload
  | startExecution source =>
    have hreset : session.KeepsSetup { session with execution := none, state := .idle } :=
      ⟨rfl, rfl, rfl, rfl⟩
    have hload := hreset.trans (load _ #[])
    rw [Session.handle, start] at h
    generalize Session.load _ #[] = loaded at h hload
    obtain ⟨fault | interpreter, after, told⟩ := loaded
    · cases h
      exact hload
    · have hruns : ∀ execution, after.KeepsSetup { after with execution } :=
        fun _ => ⟨rfl, rfl, rfl, rfl⟩
      dsimp only at h
      split at h
      · exact (hload.trans (hruns _)).trans (advance h)
      · cases h
        exact hload.trans ⟨rfl, rfl, rfl, rfl⟩
  | continueExecution =>
    rw [Session.handle, proceed] at h
    split at h
    · exact advance h
    · cases h
      exact refl session

/-- A text keeps the set-up of the session, whatever it spells. -/
theorem receive {text : String} {heard : Array Event}
    (h : session.receive fuel text = some (after, heard)) : session.KeepsSetup after := by
  rw [Session.receive] at h
  split at h
  · cases h
    exact refl session
  · split at h
    · cases h
    next hhandle => split at h <;> cases h <;> exact handle hhandle

end KeepsSetup

/-- A session is set up as it was at first, whatever it has been asked and sent. -/
theorem Heard.keepsSetup {first : Session} (h : Heard first session told) :
    first.KeepsSetup session := by
  induction h with
  | first => exact .refl first
  | command _ hhandle ih => exact ih.trans (.handle hhandle)
  | text _ hreceive ih => exact ih.trans (.receive hreceive)

/-- A session that has loaded its interpreter is one that has done nothing else, but for its run
    and its state. -/
theorem Heard.eq_of_loaded (h : Heard (new id limits loader) session told)
    (hloaded : session.loaded.isSome = true) :
    session = { new id limits loader with
      loaded := some loader, execution := session.execution, state := session.state } := by
  have hinterpreter := h.attended.steady.interpreter
  obtain ⟨hid, hlimits, hloader, hopen⟩ := h.keepsSetup
  obtain ⟨_, _, _, _ | loaded, _, _, _⟩ := session
  · cases hloaded
  · cases hid
    cases hlimits
    cases hloader
    cases hopen
    obtain rfl : loaded = loader := hinterpreter
    rfl

/-! ## Names -/

/-- The session under another name. -/
def renamed (session : Session) (id : SessionId) : Session := { session with id }

/-- The reaction of a session under another name. -/
def Reaction.renamed (id : SessionId) (reaction : Reaction) : Reaction :=
  { reaction with session := reaction.session.renamed id }

/-- Loading does the same under another name. -/
theorem load_renamed (session : Session) (events : Array Event) :
    (session.renamed id).load events =
      ((session.load events).1, (session.load events).2.1.renamed id,
        (session.load events).2.2) := by
  cases hloaded : session.loaded with
  | some loaded => simp only [load, renamed, hloaded]
  | none => simp only [load, renamed, hloaded]; rfl

/-- The rest of a run is the same under another name. -/
theorem finishUntraced_renamed (session : Session) (execution : Execution) (events : Array Event) :
    (session.renamed id).finishUntraced fuel execution events =
      (session.finishUntraced fuel execution events).map (Reaction.renamed id) := by
  have hwatcher : (session.renamed id).watcher = session.watcher := rfl
  rw [finishUntraced, finishUntraced, hwatcher]
  cases execution.finish session.watcher fuel fuel events with
  | none => rfl
  | some result =>
    obtain ⟨outcome, last, told⟩ := result
    cases outcome <;> rfl

/-- A stretch does the same under another name. -/
theorem advance_renamed (session : Session) (events : Array Event) :
    (session.renamed id).advance fuel events =
      (session.advance fuel events).map (Reaction.renamed id) := by
  have hwatcher : (session.renamed id).watcher = session.watcher := rfl
  have hexecution : (session.renamed id).execution = session.execution := rfl
  rw [advance, advance, hwatcher, hexecution]
  cases session.execution with
  | none => rfl
  | some execution =>
    dsimp only
    cases execution.resume session.watcher fuel events with
    | none => rfl
    | some result =>
      obtain ⟨outcome, last, told⟩ := result
      cases outcome with
      | traceFailed failure =>
        have hopen : (session.renamed id).isOpen = session.isOpen := rfl
        dsimp only
        rw [hopen]
        split
        · exact finishUntraced_renamed { session with execution := some last } _ _
        · rfl
      | _ => rfl

/-- A start does the same under another name. -/
theorem start_renamed (session : Session) (source : String) :
    (session.renamed id).start fuel source =
      (session.start fuel source).map (Reaction.renamed id) := by
  have hload : Session.load { session.renamed id with execution := none, state := .idle } #[] = _ :=
    load_renamed { session with execution := none, state := .idle } #[]
  rw [start, start, hload]
  obtain ⟨fault | interpreter, loaded, told⟩ :=
    Session.load { session with execution := none, state := .idle } #[]
  · rfl
  · dsimp only
    cases interpreter.prepare source with
    | error fault => rfl
    | ok execution => exact advance_renamed { loaded with execution := some execution } told

/-- A session does the same under another name. -/
theorem handle_renamed (session : Session) (command : Command) :
    (session.renamed id).handle fuel command =
      (session.handle fuel command).map (Reaction.renamed id) := by
  cases command with
  | load =>
    rw [handle, handle, initiate, initiate, load_renamed]
    obtain ⟨fault | interpreter, loaded, told⟩ := session.load #[] <;> rfl
  | startExecution source => exact start_renamed session source
  | continueExecution =>
    have hstate : (session.renamed id).state = session.state := rfl
    rw [handle, handle, proceed, proceed, hstate]
    split
    · exact advance_renamed session #[]
    · rfl

/-! ## Observations -/

/-- What can be seen of a reaction from outside of the session. -/
structure Observation where
  events : Array Event
  result : Except SessionError Unit
  state : SessionState
  snapshot : Option (Line × Bindings String)

/-- What a reaction shows. -/
def Reaction.observation (reaction : Reaction) : Observation :=
  ⟨reaction.events, reaction.result, reaction.session.state, reaction.session.currentSnapshot?⟩

/-- What a session shows in answer to some commands, one after the other, `none` when a stretch
    takes more than `fuel` steps. -/
def observe (fuel : Nat) (session : Session) : List Command → Option (List Observation)
  | [] => some []
  | command :: commands =>
    match session.handle fuel command with
    | none => none
    | some reaction =>
      (reaction.session.observe fuel commands).map (reaction.observation :: ·)

/-- What a session shows does not depend on its name. -/
theorem observe_renamed (session : Session) (commands : List Command) :
    (session.renamed id).observe fuel commands = session.observe fuel commands := by
  induction commands generalizing session with
  | nil => rfl
  | cons command commands ih =>
    rw [observe, observe, handle_renamed]
    cases session.handle fuel command with
    | none => rfl
    | some reaction =>
      have hsame : (reaction.renamed id).observation = reaction.observation := rfl
      have hrest : (reaction.renamed id).session.observe fuel commands =
          reaction.session.observe fuel commands := ih reaction.session
      dsimp only [Option.map_some]
      rw [hsame, hrest]

/-- A session that has loaded its interpreter starts a run as if it had done nothing else. -/
theorem Heard.observe_fresh (h : Heard (new id limits loader) session told)
    (hloaded : session.loaded.isSome = true) (fuel : Nat) (source : String)
    (commands : List Command) :
    session.observe fuel (.startExecution source :: commands) =
      Session.observe fuel { new id limits loader with loaded := some loader }
        (.startExecution source :: commands) := by
  rw [h.eq_of_loaded hloaded]
  rfl

/-- A new run forgets the old ones. Take two sessions with the same limits and the same loader that
    have loaded their interpreters, whatever each of them was asked and sent while somebody
    listened. They answer a request to start a run, and all commands after it, with the same events
    and results, and are in the same state with the same line and variables after each of them. -/
theorem observe_start {session₁ session₂ : Session} {told₁ told₂ : List Event}
    (h₁ : Heard (new id₁ limits loader) session₁ told₁)
    (h₂ : Heard (new id₂ limits loader) session₂ told₂)
    (hloaded₁ : session₁.loaded.isSome = true) (hloaded₂ : session₂.loaded.isSome = true)
    (fuel : Nat) (source : String) (commands : List Command) :
    session₁.observe fuel (.startExecution source :: commands) =
      session₂.observe fuel (.startExecution source :: commands) := by
  let fresh : Session := { new id₁ limits loader with loaded := some loader }
  rw [h₁.observe_fresh hloaded₁, h₂.observe_fresh hloaded₂]
  have hrenamed : (fresh.renamed id₂).observe fuel (.startExecution source :: commands) =
      fresh.observe fuel (.startExecution source :: commands) := observe_renamed fresh _
  exact hrenamed.symm

/-- A session that has left a run at a pause, where a function was bound, starts another one in
    which nothing is. -/
theorem observe_start_abandoned : ∃ abandoned told,
    Heard (new ⟨1⟩ ⟨5, 20⟩ (.ok ⟨10, 20⟩)) abandoned told ∧
      abandoned.currentSnapshot? = some (3, Bindings.empty.insert "f" "<function f>") ∧
      abandoned.observe 20 [.startExecution "a = 1", .continueExecution] =
        some [⟨#[.lineExecuted 1 .empty], .ok (), .paused 1, some (1, .empty)⟩,
          ⟨#[.programEnd], .ok (), .finished, none⟩] := by
  obtain ⟨loaded, hload, hloaded⟩ : ∃ loaded,
      (new ⟨1⟩ ⟨5, 20⟩ (.ok ⟨10, 20⟩)).handle 20 .load = some loaded ∧
        loaded.session.loaded = some (.ok ⟨10, 20⟩) := ⟨_, rfl, rfl⟩
  obtain ⟨defines, hstart, calls, hcontinue, hsnapshot, htried⟩ : ∃ defines,
      loaded.session.handle 20 (.startExecution "def f(x) \x7b\nreturn x \x7d\nf(True)") =
        some defines ∧ ∃ calls, defines.session.handle 20 .continueExecution = some calls ∧
        calls.session.currentSnapshot? = some (3, Bindings.empty.insert "f" "<function f>") ∧
          calls.session.loaded.isSome = true := by
    rw [handle, start_of_compile hloaded compile_calling]
    cases hload
    exact ⟨_, rfl, _, rfl, rfl, rfl⟩
  have habandoned := ((Heard.first.command hload).command hstart).command hcontinue
  obtain ⟨ready, hready, hreadyLoaded⟩ : ∃ ready,
      (new ⟨0⟩ ⟨5, 20⟩ (.ok ⟨10, 20⟩)).handle 20 .load = some ready ∧
        ready.session.loaded = some (.ok ⟨10, 20⟩) := ⟨_, rfl, rfl⟩
  refine ⟨_, _, habandoned, hsnapshot, ?_⟩
  rw [observe_start habandoned (Heard.first.command hready) htried (by rw [hreadyLoaded]; rfl),
    observe, handle, start_of_compile hreadyLoaded compile_binding]
  cases hready
  rfl

end Session

end Linewise
