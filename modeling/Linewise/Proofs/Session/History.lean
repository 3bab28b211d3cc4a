import Linewise.Proofs.Session.Exchange

/-!
# What a session remembers of its pause

Somebody listens to a session from its beginning and hears all that it tells, whatever it is asked
and sent (`Session.Heard`). While the session is paused, it can be asked for the line and its
variables once more. They are captured anew, from the execution as it was suspended, and they are
those that were told last (`Session.Heard.recaptures`). What the session refuses to do changes
neither, and in all other states there is nothing to capture.
-/

namespace Linewise

open Wire (Command Event SessionId)

/-- The line that an event tells of, with its variables. -/
def Wire.Event.line? : Event → Option (Line × Bindings String)
  | .lineExecuted line scope => some (line, scope)
  | .ready | .loadFailed _ | .output _ | .programEnd | .error _ => none

/-- A run that has just reached a line is seen on that line. -/
theorem Machine.view?_of_atLine {m m' : Machine} {line : Line} (h : m.step = .atLine line m')
    (control : Control) (traced : Bool) :
    Execution.view? ⟨m', control, traced⟩ = some (m'.view line) := by
  have hsteps := step_steps m
  rw [h] at hsteps
  cases hsteps with
  | executes _ _ hexec =>
    cases hexec with
    | reaches => rfl

namespace Session

/-! ## The last line -/

/-- The last line that was told, with its variables. -/
def lastLine? (told : List Event) : Option (Line × Bindings String) :=
  (told.filterMap Event.line?).getLast?

variable {told events : List Event} {texts : List String}

/-- What tells of no line leaves the last line as it is. -/
theorem lastLine?_append (h : events.filterMap Event.line? = []) :
    lastLine? (told ++ events) = lastLine? told := by
  rw [lastLine?, List.filterMap_append, h, List.append_nil, lastLine?]

/-- A line that has just been told is the last one. -/
theorem lastLine?_concat (told : List Event) (texts : List String) (limits : SnapshotLimits)
    (view : FrameView) : lastLine? (told ++ (outputs texts ++ [lineEvent limits view])) =
      some (view.line, Snapshot.scope limits view) := by
  rw [lastLine?, ← List.append_assoc, List.filterMap_append]
  exact List.getLast?_concat

/-- Printed texts show no line. -/
theorem filterMap_line?_outputs (texts : List String) :
    (outputs texts).filterMap Event.line? = [] := by
  refine List.filterMap_eq_nil_iff.2 fun event hevent => ?_
  obtain ⟨text, -, rfl⟩ := List.mem_map.1 hevent
  rfl

/-! ## Pauses -/

variable {session after : Session} {m : Machine} {fuel : Nat} {reaction : Reaction}
  {command : Command} {loader : Except LoadFault Interpreter}

/-- A session that is paused holds an execution that is seen on the line that was told last, and a
    session that is not holds none. -/
inductive Recalls (session : Session) (told : List Event) : Prop
  | paused {e : Execution} {view : FrameView} (hstate : session.state = .paused view.line)
      (hexecution : session.execution = some e) (hview : e.view? = some view)
      (hfits : Snapshot.Fits session.limits view)
      (htold : lastLine? told = some (view.line, Snapshot.scope session.limits view))
  | rests (hstate : session.state.canContinue = false) (hexecution : session.execution = none)

/-- The snapshot of a run is that of the line that it is seen on. -/
theorem currentSnapshot?_of_view {e : Execution} {view : FrameView}
    (hexecution : session.execution = some e) (hview : e.view? = some view)
    (hfits : Snapshot.Fits session.limits view) :
    session.currentSnapshot? = some (view.line, Snapshot.scope session.limits view) := by
  rw [currentSnapshot?, hexecution]
  simp only [Option.bind_eq_bind, Option.bind_some, hview, Snapshot.capture_of_fits hfits]

theorem currentSnapshot?_of_none (hexecution : session.execution = none) :
    session.currentSnapshot? = none := by
  rw [currentSnapshot?, hexecution]
  rfl

/-- The session is the same but for its interpreter, and no line was told meanwhile. -/
theorem Recalls.congr (h : session.Recalls told) (hcontinues : session.Continues after)
    (hstate : after.state = session.state) (hexecution : after.execution = session.execution)
    (hevents : events.filterMap Event.line? = []) : after.Recalls (told ++ events) := by
  cases h with
  | paused hpaused hsome hview hfits htold =>
    rw [← hcontinues.limits] at hfits htold
    exact .paused (hstate.trans hpaused) (hexecution.trans hsome) hview hfits
      ((lastLine?_append hevents).trans htold)
  | rests hrests hnone =>
    exact .rests (by rw [hstate]; exact hrests) (hexecution.trans hnone)

/-- A stretch ends with a line that is told last, or with no run to go on with. -/
theorem Advances.recalls (h : session.Advances m events after) (told : List Event) :
    after.Recalls (told ++ events) := by
  obtain ⟨hruns, hquiet, hreports⟩ := h
  cases hreports with
  | @line line m' hstep hfits =>
    have hline : (m'.view line).line = line := Machine.line_view m' line
    exact .paused (congrArg SessionState.paused hline.symm) rfl
      (Machine.view?_of_atLine hstep _ _) hfits (lastLine?_concat ..)
  | finished => exact .rests rfl rfl
  | faulted => exact .rests rfl rfl
  | tooLarge => exact .rests rfl rfl

/-! ## Requests -/

/-- What always holds of a session that somebody listens to. Without an interpreter it has never
    had a run. -/
structure Attended (loader : Except LoadFault Interpreter) (session : Session)
    (told : List Event) : Prop where
  steady : Steady loader session
  recalls : session.Recalls told
  idle : ∀ fault, loader = .error fault → session.state = .idle

/-- A new session has told of no line, and recalls none. -/
theorem attended_new (id : SessionId) (limits : SnapshotLimits)
    (loader : Except LoadFault Interpreter) : Attended loader (new id limits loader) [] :=
  ⟨steady_new id limits loader, .rests rfl rfl, fun _ _ => rfl⟩

/-- Nothing has become of the run, and no line was told. -/
structure Leaves (session : Session) (reaction : Reaction) : Prop where
  continues : session.Continues reaction.session
  state : reaction.session.state = session.state
  execution : reaction.session.execution = session.execution
  events : reaction.events.toList.filterMap Event.line? = []

/-- What always holds of a session holds after an operation that leaves its run alone. -/
theorem Attended.of_leaves (h : Attended loader session told) (hleaves : session.Leaves reaction) :
    Attended loader reaction.session (told ++ reaction.events.toList) := by
  obtain ⟨hcontinues, hstate, hexecution, hevents⟩ := hleaves
  refine ⟨h.steady.of_continues hcontinues ?_,
    h.recalls.congr hcontinues hstate hexecution hevents, ?_⟩
  · rw [hstate, hexecution]
    exact h.steady.watched
  · rw [hstate]
    exact h.idle

/-- A session that has told of a stretch has an interpreter. -/
theorem Attended.of_advances {first : Session} {interpreter : Interpreter}
    (hfirst : Steady (.ok interpreter) first) (hcontinues : first.Continues session)
    (h : session.Advances m events after) (told : List Event) :
    Attended (.ok interpreter) after (told ++ events) :=
  ⟨hfirst.of_continues (hcontinues.trans h.continues) h.exists_execution, h.recalls told, nofun⟩

/-- A request to load leaves the run alone. -/
theorem Attended.leaves_load (h : Attended loader session told)
    (hhandle : session.handle fuel .load = some reaction) : session.Leaves reaction := by
  obtain ⟨loaded, heard, texts, hinitiate, hcontinues, hstate, hexecution, hheard⟩ :=
    exists_initiate_eq h.steady.isOpen
  rw [handle, hinitiate] at hhandle
  cases hhandle
  refine ⟨hcontinues, hstate, hexecution, ?_⟩
  rw [hheard, List.filterMap_append, filterMap_line?_outputs, h.steady.interpreter]
  cases loader <;> rfl

/-- A request to start a run is refused for want of an interpreter alone, and then there is no run
    to lose. -/
theorem Attended.start {source : String} (h : Attended loader session told)
    (hhandle : session.handle fuel (.startExecution source) = some reaction) :
    (reaction.result = .ok () ∧
      Attended loader reaction.session (told ++ reaction.events.toList)) ∨
      session.Leaves reaction := by
  obtain ⟨loaded, heard, texts, hcontinues, hstate, hexecution, hheard, hstart⟩ :=
    exists_start_eq h.steady.isOpen source
  have hloadedOpen : loaded.isOpen = true := hcontinues.isOpen.trans h.steady.isOpen
  rw [handle, hstart, h.steady.interpreter] at hhandle
  cases hloader : loader with
  | error fault =>
    simp only [hloader] at hhandle
    cases hhandle
    -- Without an interpreter nothing was ever run, so the refused start leaves the session as it
    -- was.
    have hidle := h.idle fault hloader
    have hnone : session.execution = none := by
      cases h.recalls with
      | paused hpaused => cases hidle.symm.trans hpaused
      | rests _ hnone => exact hnone
    refine .inr ⟨hcontinues, hstate.trans hidle.symm, hexecution.trans hnone.symm, ?_⟩
    rw [hheard, filterMap_line?_outputs]
  | ok interpreter =>
    simp only [hloader] at hhandle
    cases hcompile : interpreter.compile source with
    | error fault =>
      simp only [hcompile, fail, reply_ended hloadedOpen] at hhandle
      cases hhandle
      subst hloader
      have hended : session.Continues { loaded with execution := none, state := .errored } :=
        hcontinues.trans ⟨rfl, rfl, rfl, rfl⟩
      have hstops : SessionState.errored.canContinue ≠ true := by decide
      exact .inl ⟨rfl, h.steady.of_continues hended fun hstate => absurd hstate hstops,
        .rests rfl rfl, fun fault hloader => by cases hloader⟩
    | ok code =>
      simp only [hcompile] at hhandle
      let started : Session :=
        { loaded with execution := some (.start code interpreter.maxCallDepth true) }
      have hstarted : session.Continues started := hcontinues.trans ⟨rfl, rfl, rfl, rfl⟩
      have hstartedOpen : started.isOpen = true := hloadedOpen
      obtain ⟨new, hadvances, hevents, hresult⟩ :=
        advances_of_advance hstartedOpen rfl ⟨rfl, rfl⟩ hhandle
      subst hloader
      -- The texts printed while loading come first, and show no line.
      have hattended := Attended.of_advances h.steady hstarted hadvances (told ++ outputs texts)
      refine .inl ⟨hresult, ?_⟩
      simpa [hevents, hheard] using hattended

/-- A session that goes on has told its stretch, and one that does not leaves everything as it
    was. -/
theorem Attended.continues (h : Attended loader session told)
    (hhandle : session.handle fuel .continueExecution = some reaction) :
    (reaction.result = .ok () ∧
      Attended loader reaction.session (told ++ reaction.events.toList)) ∨
      session.Leaves reaction := by
  cases hstate : session.state.canContinue with
  | false =>
    rw [handle, proceed, if_neg (by rw [hstate]; exact Bool.false_ne_true)] at hhandle
    cases hhandle
    exact .inr ⟨.refl session, rfl, rfl, rfl⟩
  | true =>
    obtain ⟨e, hexecution, hwatched⟩ := h.steady.watched hstate
    rw [handle, proceed_eq_advance hstate] at hhandle
    obtain ⟨new, hadvances, hevents, hresult⟩ :=
      advances_of_advance h.steady.isOpen hexecution hwatched hhandle
    -- Without an interpreter there has never been a run to go on with.
    cases hloader : loader with
    | error fault =>
      rw [h.idle fault hloader] at hstate
      cases hstate
    | ok interpreter =>
      subst hloader
      have hattended := Attended.of_advances h.steady (.refl session) hadvances told
      refine .inl ⟨hresult, ?_⟩
      simpa [hevents] using hattended

/-- A request that is refused, or only loads the interpreter, leaves the run alone. -/
theorem Attended.leaves (h : Attended loader session told)
    (hhandle : session.handle fuel command = some reaction)
    (hstill : command = .load ∨ ∃ error, reaction.result = .error error) :
    session.Leaves reaction := by
  have hrefused : command ≠ .load → reaction.result ≠ .ok () := by
    rintro hother hok
    obtain hload | ⟨error, herror⟩ := hstill
    · exact hother hload
    · cases hok.symm.trans herror
  cases command with
  | load => exact h.leaves_load hhandle
  | startExecution source =>
    exact (h.start hhandle).resolve_left fun hok => hrefused nofun hok.1
  | continueExecution =>
    exact (h.continues hhandle).resolve_left fun hok => hrefused nofun hok.1

/-- What always holds of a session holds after any command. -/
theorem Attended.handle (h : Attended loader session told)
    (hhandle : session.handle fuel command = some reaction) :
    Attended loader reaction.session (told ++ reaction.events.toList) := by
  cases command with
  | load => exact h.of_leaves (h.leaves_load hhandle)
  | startExecution source => exact (h.start hhandle).elim And.right h.of_leaves
  | continueExecution => exact (h.continues hhandle).elim And.right h.of_leaves

/-- An error that is told changes nothing. -/
theorem Attended.error (h : Attended loader session told) (message : String) :
    Attended loader session (told ++ [.error message]) :=
  ⟨h.steady, h.recalls.congr (.refl session) rfl rfl rfl, h.idle⟩

/-- What always holds of a session holds after any text, whether it spells a command or not. -/
theorem Attended.receive {text : String} {heard : Array Event} (h : Attended loader session told)
    (hreceive : session.receive fuel text = some (after, heard)) :
    Attended loader after (told ++ heard.toList) := by
  cases hdecode : Command.decode text with
  | error complaint =>
    rw [receive_malformed h.steady.isOpen hdecode] at hreceive
    cases hreceive
    exact h.error _
  | ok command =>
    rw [receive_of_decode hdecode] at hreceive
    obtain ⟨⟨last, reported, result⟩, hhandle, heq⟩ := Option.map_eq_some_iff.1 hreceive
    have hlast := h.handle hhandle
    cases result with
    | ok => cases heq; exact hlast
    | error error =>
      -- An error is told behind the events of the command.
      rw [reported_error hlast.steady.isOpen] at heq
      cases heq
      simpa using hlast.error error.message

/-! ## Histories -/

/-- What a session may have come to since another one, and all that it has told, when it was asked
    to do things and sent texts. -/
inductive Heard (first : Session) : Session → List Event → Prop
  | first : Heard first first []
  | command {session : Session} {told : List Event} {fuel : Nat} {command : Command}
      {reaction : Reaction} (h : Heard first session told)
      (hhandle : session.handle fuel command = some reaction) :
      Heard first reaction.session (told ++ reaction.events.toList)
  | text {session after : Session} {told : List Event} {fuel : Nat} {text : String}
      {heard : Array Event} (h : Heard first session told)
      (hreceive : session.receive fuel text = some (after, heard)) :
      Heard first after (told ++ heard.toList)

/-- What always holds of a session holds from the beginning on. -/
theorem Heard.attended {id : SessionId} {limits : SnapshotLimits}
    (h : Heard (new id limits loader) session told) : Attended loader session told := by
  induction h with
  | first => exact attended_new id limits loader
  | command _ hhandle ih => exact ih.handle hhandle
  | text _ hreceive ih => exact ih.receive hreceive

/-- What a pause is captured as anew is what was told of it. Whatever a session has been asked and
    sent while somebody listened: if it is paused on a line, it captures that line, with the
    variables that the last line told had, and this was the same line. Otherwise it captures
    nothing. Requests that it refuses or that load its interpreter, and texts that are no commands,
    leave this as it is: the state, what is captured and the last line that was told. -/
theorem Heard.recaptures {id : SessionId} {limits : SnapshotLimits}
    (h : Heard (new id limits loader) session told) :
    (∀ line, session.state = .paused line → ∃ scope,
      session.currentSnapshot? = some (line, scope) ∧ lastLine? told = some (line, scope)) ∧
    ((∀ line, session.state ≠ .paused line) → session.currentSnapshot? = none) ∧
    (∀ fuel command reaction, session.handle fuel command = some reaction →
      (command = .load ∨ ∃ error, reaction.result = .error error) →
        reaction.session.state = session.state ∧
        reaction.session.currentSnapshot? = session.currentSnapshot? ∧
        lastLine? (told ++ reaction.events.toList) = lastLine? told) ∧
    ∀ fuel text complaint, Command.decode text = .error complaint → ∃ heard,
      session.receive fuel text = some (session, heard) ∧
        lastLine? (told ++ heard.toList) = lastLine? told := by
  have hattended := h.attended
  refine ⟨fun line hline => ?_, fun hother => ?_, fun fuel command reaction hhandle hstill => ?_,
    fun fuel text complaint hdecode => ?_⟩
  · cases hattended.recalls with
    | paused hpaused hsome hview hfits htold =>
      cases hline.symm.trans hpaused
      exact ⟨_, currentSnapshot?_of_view hsome hview hfits, htold⟩
    | rests hrests => rw [hline] at hrests; cases hrests
  · cases hattended.recalls with
    | paused hpaused => exact absurd hpaused (hother _)
    | rests _ hnone => exact currentSnapshot?_of_none hnone
  -- A snapshot is captured from the execution and the limits, and both are left as they were.
  · obtain ⟨hcontinues, hstate, hexecution, hevents⟩ := hattended.leaves hhandle hstill
    refine ⟨hstate, ?_, lastLine?_append hevents⟩
    rw [currentSnapshot?, hexecution, hcontinues.limits]
    rfl
  · exact ⟨_, receive_malformed hattended.steady.isOpen hdecode fuel, lastLine?_append rfl⟩

/-- A script that calls a function with an argument. -/
def calling : Program :=
  [.define 1 "f" ["x"] [.leave 2 (some (.ident "x"))] 0, .expr 3 (.call (.ident "f") [.bool true])]

theorem compile_calling : Interpreter.compile ⟨10, 20⟩
    "def f(x) \x7b\nreturn x \x7d\nf(True)" = .ok calling.emit := by
  have hparse : Program.parse 20 "def f(x) \x7b\nreturn x \x7d\nf(True)" = .ok calling := by cbv
  exact Interpreter.compile_of_parse hparse rfl

/-- A session that is paused inside of the function captures the argument, as it was told. -/
theorem Heard.recaptures_calling : ∃ session told,
    Heard (new ⟨0⟩ ⟨5, 10⟩ (.ok ⟨10, 20⟩)) session told ∧ session.state = .paused 2 ∧
      session.currentSnapshot? = some (2, Bindings.empty.insert "x" "True") ∧
      lastLine? told = some (2, Bindings.empty.insert "x" "True") := by
  obtain ⟨loaded, hload⟩ : ∃ loaded,
      (new ⟨0⟩ ⟨5, 10⟩ (.ok ⟨10, 20⟩)).handle 20 .load = some loaded := ⟨_, rfl⟩
  obtain ⟨defines, hstart, calls, hcontinue, returns, hlast, hstate, hsnapshot⟩ : ∃ defines,
      loaded.session.handle 20 (.startExecution "def f(x) \x7b\nreturn x \x7d\nf(True)") =
        some defines ∧ ∃ calls, defines.session.handle 20 .continueExecution = some calls ∧
        ∃ returns, calls.session.handle 20 .continueExecution = some returns ∧
          returns.session.state = .paused 2 ∧ returns.session.currentSnapshot? =
            some (2, Bindings.empty.insert "x" "True") := by
    cases hload
    rw [handle, start_of_compile rfl compile_calling]
    exact ⟨_, rfl, _, rfl, _, rfl, rfl, rfl⟩
  have hheard := (((Heard.first.command hload).command hstart).command hcontinue).command hlast
  obtain ⟨scope, hscope, htold⟩ := hheard.recaptures.1 2 hstate
  cases hsnapshot.symm.trans hscope
  exact ⟨_, _, hheard, hstate, hsnapshot, htold⟩

end Session

end Linewise
