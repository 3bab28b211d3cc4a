import Linewise.Proofs.Session.Audience
import Linewise.Proofs.Session.Exchange

/-!
# What a session holds

A session is *consistent* if it is paused on a line exactly when it holds an execution that is
suspended there, and holds nothing in any other state. A new session is, and whatever a session is
asked to do, it stays so as long as somebody listens (`Session.Lives.isConsistent`).

When the listener leaves, the session may be *stranded*: still idle or paused, as it was before the
stretch, with an execution that is not suspended anywhere and not traced any more. This is what is
left when the failure to report a line, or the fault at the end of what follows it, cannot be told
(`Audience.Settles`). It takes an operation that has failed for want of a listener; no operation
that succeeds leaves a session so, and there is a first request already that does
(`Session.strands_unheard`).
-/

namespace Linewise

open Wire (Command Event SessionId)

open Session (Reaction)

namespace Execution

variable {σ : Type} {w : Watcher σ} {s s' : σ} {e e' : Execution} {outcome : Outcome}
  {fuel stretches : Nat}

/-- The run is not suspended on any line, and will not be any more. -/
structure IsLoose (e : Execution) : Prop where
  traced : e.traced = false
  pausedLine : e.pausedLine? = none

theorem isLoose_ended {m : Machine} (houtcome : outcome = .finished ∨ ∃ fault,
    outcome = .faulted fault) : IsLoose ⟨m, outcome.control, false⟩ := by
  rcases houtcome with rfl | ⟨fault, rfl⟩
  · exact ⟨rfl, rfl⟩
  · exact ⟨rfl, rfl⟩

/-- An execution that has just been suspended on a line is. -/
theorem pausedLine?_of_resume {line : Line}
    (h : e.resume w fuel s = some (.paused line, e', s')) : e'.pausedLine? = some line := by
  cases hterminated : e.isTerminated with
  | true =>
    obtain ⟨outcome, houtcome, hagain⟩ := resume_of_isTerminated hterminated w s
    cases (hagain fuel).symm.trans h
    rcases houtcome with hpaused | ⟨fault, hpaused⟩ <;> exact nomatch hpaused
  | false =>
    cases stretch_of_resume hterminated h with
    | paused => rfl
    | ended hends =>
      rcases hends.outcome_eq with hpaused | ⟨fault, hpaused⟩ <;> exact nomatch hpaused

/-- What could not be reported is let loose. -/
theorem isLoose_of_resume {failure : TraceFailure}
    (h : e.resume w fuel s = some (.traceFailed failure, e', s')) : e'.IsLoose := by
  cases hterminated : e.isTerminated with
  | true =>
    obtain ⟨outcome, houtcome, hagain⟩ := resume_of_isTerminated hterminated w s
    cases (hagain fuel).symm.trans h
    rcases houtcome with hfailed | ⟨fault, hfailed⟩ <;> exact nomatch hfailed
  | false =>
    cases stretch_of_resume hterminated h with
    | traceFailed => exact ⟨rfl, rfl⟩
    | ended hends => exact isLoose_ended hends.outcome_eq

/-- What is let loose stays so up to its end. -/
theorem IsLoose.finish (h : e.IsLoose)
    (hfinish : e.finish w fuel stretches s = some (outcome, e', s')) : e'.IsLoose := by
  cases hterminated : e.isTerminated with
  | true =>
    obtain ⟨outcome', houtcome, hagain⟩ := resume_of_isTerminated hterminated w s
    rcases stretches with _ | stretches
    · exact nomatch hfinish
    · cases (finish_of_resume houtcome (hagain fuel)).symm.trans hfinish
      exact h
  | false =>
    obtain ⟨sights, m', hends, rfl, -⟩ := ends_of_finish hterminated hfinish
    exact isLoose_ended hends.outcome_eq

end Execution

namespace Session

/-- The session is paused on a line exactly if it holds an execution that is suspended there, and
    holds none in any other state. -/
structure IsConsistent (session : Session) : Prop where
  paused_iff : ∀ line, session.state = .paused line ↔
    ∃ e, session.execution = some e ∧ e.pausedLine? = some line
  execution_eq_none : (∀ line, session.state ≠ .paused line) → session.execution = none

/-- The session says what it said before a stretch, and holds the execution that the stretch has
    let loose. -/
structure IsStranded (session : Session) : Prop where
  execution : ∃ e, session.execution = some e ∧ e.IsLoose
  state : session.state = .idle ∨ ∃ line, session.state = .paused line

variable {session after : Session} {e : Execution} {line : Line}

/-- A session that holds no execution and is not paused is consistent. -/
theorem isConsistent_of_none (hexecution : session.execution = none)
    (hstate : ∀ line, session.state ≠ .paused line) : session.IsConsistent := by
  refine ⟨fun line => ⟨fun hpaused => absurd hpaused (hstate line), ?_⟩, fun _ => hexecution⟩
  rintro ⟨e, he, -⟩
  exact nomatch hexecution.symm.trans he

/-- A session that is paused where its run is suspended is consistent. -/
theorem isConsistent_of_paused (hexecution : session.execution = some e)
    (hline : e.pausedLine? = some line) (hstate : session.state = .paused line) :
    session.IsConsistent := by
  refine ⟨fun other => ⟨?_, ?_⟩, fun hother => absurd hstate (hother line)⟩
  · intro hpaused
    cases hstate.symm.trans hpaused
    exact ⟨e, hexecution, hline⟩
  · rintro ⟨e', he', hother⟩
    cases hexecution.symm.trans he'
    cases hline.symm.trans hother
    exact hstate

/-- A stranded session is not consistent: it holds an execution that is suspended nowhere. -/
theorem IsStranded.not_isConsistent (h : session.IsStranded) : ¬session.IsConsistent := by
  intro hconsistent
  obtain ⟨e, hexecution, hloose⟩ := h.execution
  rcases h.state with hidle | ⟨line, hpaused⟩
  · have hnone := hconsistent.execution_eq_none fun line => by rw [hidle]; exact nofun
    exact nomatch hexecution.symm.trans hnone
  · obtain ⟨e', he', hline⟩ := (hconsistent.paused_iff line).1 hpaused
    cases hexecution.symm.trans he'
    exact nomatch hloose.pausedLine.symm.trans hline

/-- Being consistent or stranded only depends on the state and the execution. -/
theorem IsConsistent.congr (h : session.IsConsistent) (hstate : after.state = session.state)
    (hexecution : after.execution = session.execution) : after.IsConsistent := by
  constructor
  · rw [hstate, hexecution]
    exact h.paused_iff
  · rw [hstate, hexecution]
    exact h.execution_eq_none

/-- Being stranded depends on the state and the run alone. -/
theorem IsStranded.congr (h : session.IsStranded) (hstate : after.state = session.state)
    (hexecution : after.execution = session.execution) : after.IsStranded := by
  constructor
  · rw [hexecution]
    exact h.execution
  · rw [hstate]
    exact h.state

/-- A new session is consistent: it is idle, and has no run. -/
theorem isConsistent_new (id : SessionId) (limits : SnapshotLimits)
    (loader : Except LoadFault Interpreter) : (new id limits loader).IsConsistent :=
  isConsistent_of_none rfl nofun

end Session

/-! ## One operation -/

namespace Audience

variable {audience : Audience} {before session : Session} {events : Array Event}
  {execution : Execution} {reaction : Reaction} {operation : Operation} {command : Command}
  {fuel : Nat}

/-- How an operation leaves a session. -/
inductive Settles (audience : Audience) (before : Session) (reaction : Reaction) : Prop
  /-- Nothing has become of the run. -/
  | untouched (hstate : reaction.session.state = before.state)
      (hexecution : reaction.session.execution = before.execution)
      (hresult : reaction.result = .ok () → ∃ events, audience.listens events = true)
  | consistent (h : reaction.session.IsConsistent)
  /-- The end of a stretch could not be told. -/
  | stranded (h : reaction.session.IsStranded) (hresult : reaction.result = .error .channelClosed)
      (hgone : audience.listens reaction.events = false)

/-- The end of a run that has let go of it leaves nothing inconsistent, told or not. -/
theorem settles_ended {state : SessionState} (hstate : ∀ line, state ≠ .paused line)
    (told : Array Event) (event : Event) :
    Settles audience before ({ session with execution := none, state }.reply told event) :=
  .consistent (Session.isConsistent_of_none rfl hstate)

/-- Of the end of a run that is not reported any more, only a fault may get lost. -/
theorem finishUntraced_settles (hloose : execution.IsLoose)
    (hstate : session.state = .idle ∨ ∃ line, session.state = .paused line)
    (h : audience.finishUntraced fuel session execution events = some reaction) :
    Settles audience before reaction := by
  rw [finishUntraced] at h
  split at h
  · cases h
  next outcome last told hfinish =>
    dsimp only at h
    split at h
    · rw [← Option.some.inj h]
      split
      · exact settles_ended (by simp) _ _
      next hgone =>
        have hlost : audience.listens told = false := by simpa using hgone
        refine .stranded ⟨⟨last, rfl, hloose.finish hfinish⟩, hstate⟩ ?_ ?_
        · simp [Session.reply, hlost]
        · simp [Session.reply, Session.tell, hlost]
    · rw [← Option.some.inj h]
      exact .consistent (Session.isConsistent_of_none rfl (by simp))

/-- A stretch that begins in a session that is idle or paused leaves it consistent, unless its end
    could not be told. -/
theorem advance_settles (hexecution : session.execution = some execution)
    (hstate : session.state = .idle ∨ ∃ line, session.state = .paused line)
    (h : audience.advance fuel session events = some reaction) :
    Settles audience before reaction := by
  rw [advance, hexecution] at h
  dsimp only at h
  split at h
  · cases h
  next outcome last told hresume =>
    rcases outcome with line | _ | fault | failure
    · rw [← Option.some.inj h]
      exact .consistent (Session.isConsistent_of_paused rfl
        (Execution.pausedLine?_of_resume hresume) rfl)
    · rw [← Option.some.inj h]
      exact settles_ended (by simp) _ _
    · rw [← Option.some.inj h]
      exact settles_ended (by simp) _ _
    -- A failed trace leaves an execution that is loose until the remainder is run, which happens
    -- only if the error could be told.
    · have hloose := Execution.isLoose_of_resume hresume
      dsimp only at h
      split at h
      · exact finishUntraced_settles hloose hstate h
      next hgone =>
        have hlost : audience.listens told = false := by simpa using hgone
        rw [← Option.some.inj h]
        refine .stranded ⟨⟨last, rfl, hloose⟩, hstate⟩ ?_ ?_
        · simp [Session.reply, hlost]
        · simp [Session.reply, Session.tell, hlost]

/-- Loading has nothing to do with a run. -/
theorem state_load (audience : Audience) (session : Session) (events : Array Event) :
    (audience.load session events).2.1.state = session.state ∧
      (audience.load session events).2.1.execution = session.execution := by
  rw [load]
  split <;> exact ⟨rfl, rfl⟩

/-- A start leaves no run, or one as its first stretch leaves it. -/
theorem start_settles {source : String} (h : audience.start fuel session source = some reaction) :
    Settles audience before reaction := by
  obtain ⟨hstate, hexecution⟩ :=
    state_load audience { session with execution := none, state := .idle } #[]
  -- Loading comes after the run before has been let go of, and brings none back.
  rw [start] at h
  generalize load audience _ #[] = loaded at h hstate hexecution
  obtain ⟨fault | interpreter, after, told⟩ := loaded
  · rw [← Option.some.inj h]
    refine .consistent (Session.isConsistent_of_none hexecution fun line => ?_)
    rw [hstate]
    simp
  · dsimp only at h hstate hexecution
    split at h
    next execution _ =>
      let started : Session := { after with execution := some execution }
      have hstarted : started.execution = some execution := rfl
      exact advance_settles hstarted (.inl hstate) h
    · rw [← Option.some.inj h]
      exact settles_ended (by simp) _ _

/-- A command leaves the session as the stretch that it asks for does, or with the run that it
    had. -/
theorem handle_settles (h : audience.handle fuel session command = some reaction) :
    Settles audience session reaction := by
  rcases command with _ | source | _
  -- A request to load has nothing to do with a run, and succeeds only if somebody hears of it.
  · obtain ⟨hstate, hexecution⟩ := state_load audience session #[]
    rw [← Option.some.inj h, initiate]
    generalize load audience session #[] = loaded at hstate hexecution
    obtain ⟨fault | interpreter, after, told⟩ := loaded
    all_goals
      refine .untouched hstate hexecution fun hresult => ⟨told, ?_⟩
      cases hthere : audience.listens told with
      | true => rfl
      | false => simp [Session.reply, hthere] at hresult
  · exact start_settles h
  · rw [handle, proceed] at h
    split at h
    next hpaused =>
      rcases hexecution : session.execution with _ | execution
      · rw [advance, hexecution] at h
        rw [← Option.some.inj h]
        exact .untouched rfl rfl (by simp)
      · refine advance_settles hexecution (.inr ?_) h
        -- Only a session that is paused goes on.
        rcases hstate : session.state with _ | line | _ | _
        · simp [hstate, SessionState.canContinue] at hpaused
        · exact ⟨line, rfl⟩
        · simp [hstate, SessionState.canContinue] at hpaused
        · simp [hstate, SessionState.canContinue] at hpaused
    · rw [← Option.some.inj h]
      exact .untouched rfl rfl (by simp)

/-- To report an error changes nothing that a listener would not have heard. -/
theorem Settles.report (h : Settles audience before reaction) :
    Settles audience before (audience.report reaction) := by
  rcases h with ⟨hstate, hexecution, hresult⟩ | h | ⟨h, hresult, hgone⟩
  · exact .untouched hstate hexecution hresult
  · exact .consistent h
  · refine .stranded h hresult ?_
    simp [Audience.report, hresult, Session.report, Session.tell, hgone]

/-- Whatever a session is asked to do or sent, it is left as one of the ways in `Settles`. -/
theorem operate_settles (h : audience.operate fuel session operation = some reaction) :
    Settles audience session reaction := by
  rcases operation with command | text
  · exact handle_settles h
  · rw [operate] at h
    split at h
    · rw [← Option.some.inj h]
      exact .untouched rfl rfl fun hresult => by cases hresult
    · obtain ⟨unreported, hhandle, rfl⟩ := Option.map_eq_some_iff.1 h
      exact (handle_settles hhandle).report

end Audience

/-! ## All operations -/

namespace Session

variable {session : Session} {audience : Audience} {operation : Operation} {reaction : Reaction}
  {command : Command} {events : Array Event} {text : String} {fuel : Nat}

/-- The sessions that there may be: new ones, and those after an operation, during which the
    listener may leave, and after the listener has left meanwhile. Nobody comes back. -/
inductive Lives : Session → Prop
  | new (id : SessionId) (limits : SnapshotLimits) (loader : Except LoadFault Interpreter) :
      Lives (.new id limits loader)
  | close {session : Session} (h : Lives session) : Lives session.close
  | operate {session : Session} {audience : Audience} {operation : Operation}
      {reaction : Reaction} {fuel : Nat} (h : Lives session)
      (hlistens : ∀ events, audience.listens events = true → session.isOpen = true)
      (hoperate : audience.operate fuel session operation = some reaction) :
      Lives (reaction.session.facing audience reaction.events)

/-- What a command makes of a session is among them. -/
theorem Lives.handle (h : Lives session) (hhandle : session.handle fuel command = some reaction) :
    Lives reaction.session := by
  have hoperate : (Audience.constant session.isOpen).operate fuel session (.command command) =
      some reaction := (Audience.handle_constant session command).trans hhandle
  rw [← Audience.facing_constant reaction.session (isOpen_handle hhandle) reaction.events]
  exact h.operate (fun _ hopen => hopen) hoperate

/-- What a text makes of a session is among them as well. -/
theorem Lives.receive {told : Array Event} {after : Session} (h : Lives session)
    (hreceive : session.receive fuel text = some (after, told)) : Lives after := by
  rw [Session.receive] at hreceive
  split at hreceive
  · cases hreceive
    exact h
  · split at hreceive
    · cases hreceive
    next hhandle =>
      split at hreceive
      all_goals
        cases hreceive
        exact h.handle hhandle

/-- A session that has loaded its interpreter is among those that there may be. -/
theorem lives_terseSession : Lives terseSession := by
  have hload : (new ⟨0⟩ ⟨0, 10⟩ (.ok ⟨10, 20⟩)).handle 20 .load =
      some ⟨terseSession, #[.output loadingText, .output loadedText, .ready], .ok ()⟩ := rfl
  exact (Lives.new ⟨0⟩ ⟨0, 10⟩ (.ok ⟨10, 20⟩)).handle hload

/-- No session is stranded while somebody listens. -/
theorem Lives.isConsistent_or (h : Lives session) :
    session.IsConsistent ∨ session.IsStranded ∧ session.isOpen = false := by
  induction h with
  | new id limits loader => exact .inl (isConsistent_new id limits loader)
  | close h ih =>
    rcases ih with hconsistent | ⟨hstranded, -⟩
    · exact .inl (hconsistent.congr rfl rfl)
    · exact .inr ⟨hstranded.congr rfl rfl, rfl⟩
  | @operate session audience operation reaction fuel h hlistens hoperate ih =>
    rcases Audience.operate_settles hoperate with ⟨hstate, hexecution, -⟩ | hconsistent |
      ⟨hstranded, -, hgone⟩
    · rcases ih with hconsistent | ⟨hstranded, hgone⟩
      · exact .inl (hconsistent.congr hstate hexecution)
      · refine .inr ⟨hstranded.congr hstate hexecution, ?_⟩
        exact Bool.eq_false_iff.2 fun hthere => nomatch hgone.symm.trans (hlistens _ hthere)
    · exact .inl (hconsistent.congr rfl rfl)
    · exact .inr ⟨hstranded.congr rfl rfl, hgone⟩

/-- Whatever a session has been asked before and whenever its listener leaves, an operation leaves
    it consistent if somebody still listens then, and also if it succeeds. If it fails in a session
    that was consistent, it leaves it so unless it fails because nobody listens. At worst the
    session is stranded. -/
theorem Lives.isConsistent (h : Lives session)
    (hlistens : ∀ events, audience.listens events = true → session.isOpen = true)
    (hoperate : audience.operate fuel session operation = some reaction) :
    (audience.listens reaction.events = true → reaction.session.IsConsistent) ∧
    (reaction.result = .ok () → reaction.session.IsConsistent) ∧
    (session.IsConsistent → reaction.result ≠ .error .channelClosed →
      reaction.session.IsConsistent) ∧
    (reaction.session.IsConsistent ∨ reaction.session.IsStranded) := by
  rcases Audience.operate_settles hoperate with ⟨hstate, hexecution, hresult⟩ | hconsistent |
    ⟨hstranded, hresult, hgone⟩
  · rcases h.isConsistent_or with hconsistent | ⟨hstranded, hgone⟩
    · have hafter := hconsistent.congr hstate hexecution
      exact ⟨fun _ => hafter, fun _ => hafter, fun _ _ => hafter, .inl hafter⟩
    · -- Nobody comes back to a stranded session, so no operation on it succeeds.
      have hdeaf : ∀ events, audience.listens events ≠ true := by
        intro events hevents
        exact nomatch hgone.symm.trans (hlistens events hevents)
      refine ⟨fun hthere => absurd hthere (hdeaf _), fun hok => ?_, fun hconsistent => ?_,
        .inr (hstranded.congr hstate hexecution)⟩
      · obtain ⟨events, hevents⟩ := hresult hok
        exact absurd hevents (hdeaf events)
      · exact absurd hconsistent hstranded.not_isConsistent
  · exact ⟨fun _ => hconsistent, fun _ => hconsistent, fun _ _ => hconsistent, .inl hconsistent⟩
  · refine ⟨fun hthere => ?_, fun hok => ?_, fun _ hother => absurd hresult hother,
      .inr hstranded⟩
    · exact nomatch hgone.symm.trans hthere
    · exact nomatch hresult.symm.trans hok

/-- The listener that leaves with the first line has seen that line, and the session is paused
    there. -/
theorem isConsistent_departure : ∃ reaction,
    Audience.operate ⟨fun events => events.size < 1⟩ 20 terseSession
      (.command (.startExecution "a = 1")) = some reaction ∧
    reaction.session.state = .paused 1 ∧ reaction.session.IsConsistent := by
  have hoperate : ∃ reaction, Audience.operate ⟨fun events => events.size < 1⟩ 20 terseSession
      (.command (.startExecution "a = 1")) = some reaction ∧
      reaction.session.state = .paused 1 ∧ reaction.result = .ok () := by
    simp only [Audience.operate, Audience.handle, Audience.start, Audience.load,
      Interpreter.prepare, compile_binding, Except.map, terseSession]
    exact ⟨_, rfl, rfl, rfl⟩
  obtain ⟨reaction, hoperate, hstate, hresult⟩ := hoperate
  exact ⟨reaction, hoperate, hstate,
    (Lives.isConsistent lives_terseSession (fun _ _ => rfl) hoperate).2.1 hresult⟩

/-- A session whose listener has left is asked to start a run. It cannot tell of the first line,
    nor that it could not, and is left idle with the execution. -/
theorem strands_unheard : terseSession.close.Lives ∧
    ∃ reaction, terseSession.close.handle 20 (.startExecution "a = 1") = some reaction ∧
      reaction.result = .error .channelClosed ∧ reaction.session.state = .idle ∧
      reaction.session.execution.isSome = true ∧ ¬reaction.session.IsConsistent := by
  refine ⟨lives_terseSession.close, ?_⟩
  rw [handle, start_of_compile rfl compile_binding]
  refine ⟨_, rfl, rfl, rfl, rfl, fun hconsistent => ?_⟩
  have hnone := hconsistent.execution_eq_none (by intro line hline; cases hline)
  cases hnone

end Session

end Linewise
