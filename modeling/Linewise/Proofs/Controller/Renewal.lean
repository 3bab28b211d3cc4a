import Linewise.Proofs.Controller.Mirror

/-!
# Controllers that have been reset

A reset erases the history of a controller. From then on it does what a controller does that has
just been set up with the same breakpoints and the same worker, whatever happens to the two, and
however many messages of earlier workers still reach the one that was reset
(`Controller.reset_renews`).

The workers that the two have may be in different states, as long as nobody can tell them apart
(`Staff.IsBisimulation`). Then the two controllers are *twins*: they agree in all but what their
surfaces were told before (`Controller.Twins`).

* Twins stay twins when the same thing happens to both, as everything that a controller does follows
  from what they agree in (`Controller.Twins.action`, `Controller.Twins.message`).
* They also do when a message of an earlier worker reaches one of them, as it is dropped before
  anything else is looked at (`Controller.input?_late`).
* So they are twins in the end, and have given the same commands
  (`Controller.Twins.foldl_handle`).
-/

namespace Linewise

open Wire (Command Envelope Event SessionId)

/-- A relation of states of the workers that a controller cannot tell apart: they take the same
    commands, the next workers that are hired have the same sessions, and what comes of them cannot
    be told apart either. -/
structure Staff.IsBisimulation {ω : Type} (staff : Staff ω) (alike : ω → ω → Prop) : Prop where
  send : ∀ {workers workers' : ω} (command : Command), alike workers workers' →
    Option.Rel alike (staff.send command workers) (staff.send command workers')
  hire_session : ∀ {workers workers' : ω}, alike workers workers' →
    (staff.hire workers).1 = (staff.hire workers').1
  hire_workers : ∀ {workers workers' : ω}, alike workers workers' →
    alike (staff.hire workers).2 (staff.hire workers').2

/-- Workers in the same state cannot be told apart. -/
theorem Staff.isBisimulation_eq {ω : Type} (staff : Staff ω) : staff.IsBisimulation Eq where
  send command h := by
    cases h
    cases staff.send command _ <;> constructor
    rfl
  hire_session h := h ▸ rfl
  hire_workers h := h ▸ rfl

namespace Controller

variable {ω : Type} {staff : Staff ω} {alike : ω → ω → Prop} {stale : SessionId → Prop}

/-! ## Runs of two controllers -/

/-- What happens to one controller while something happens to another one: the same, but for
    messages of stale sessions, which reach only the first. -/
inductive Alongside (alike : ω → ω → Prop) (stale : SessionId → Prop) :
    List (Happening ω) → List (Happening ω) → Prop
  | nil : Alongside alike stale [] []
  | action (action : Action) {happenings happenings' : List (Happening ω)} :
      Alongside alike stale happenings happenings' →
      Alongside alike stale (.action action :: happenings) (.action action :: happenings')
  | message (text : Option String) {happenings happenings' : List (Happening ω)} :
      Alongside alike stale happenings happenings' →
      Alongside alike stale (.message text :: happenings) (.message text :: happenings')
  | edit (source : String) {happenings happenings' : List (Happening ω)} :
      Alongside alike stale happenings happenings' →
      Alongside alike stale (.edit source :: happenings) (.edit source :: happenings')
  | work {workers workers' : ω} {happenings happenings' : List (Happening ω)} :
      alike workers workers' → Alongside alike stale happenings happenings' →
      Alongside alike stale (.work workers :: happenings) (.work workers' :: happenings')
  | late {text : String} {envelope : Envelope} {happenings happenings' : List (Happening ω)} :
      Envelope.decode text = .ok envelope → stale envelope.session →
      Alongside alike stale happenings happenings' →
      Alongside alike stale (.message (some text) :: happenings) happenings'

/-- The sessions that a controller listens to while some things happen. -/
def sessions (staff : Staff ω) : Controller Recording ω → List (Happening ω) → List SessionId
  | c, [] => [c.session]
  | c, happening :: happenings => c.session :: sessions staff (c.handle staff happening) happenings

/-- The commands that a controller gives, or attempts to give, while some things happen. -/
def commands (staff : Staff ω) : Controller Recording ω → List (Happening ω) → List Command
  | _, [] => []
  | c, happening :: happenings =>
    (c.attemptsOn staff happening).map Prod.fst ++
      commands staff (c.handle staff happening) happenings

/-- A message of another session is nothing to a controller. -/
theorem input?_late {c : Controller Recording ω} {text : String} {envelope : Envelope}
    (hdecode : Envelope.decode text = .ok envelope) (hother : envelope.session ≠ c.session) :
    c.input? (.message (some text) : Happening ω) = none := by
  rw [input?, hdecode]
  exact if_neg hother

/-! ## Twins -/

/-- Two controllers that agree in all but what their surfaces were told before. -/
structure Twins (alike : ω → ω → Prop) (told told' : Array Update)
    (c d : Controller Recording ω) : Prop where
  state : c.state = d.state
  breakpoints : c.breakpoints = d.breakpoints
  session : c.session = d.session
  source : c.surface.source = d.surface.source
  workers : alike c.workers d.workers
  updates : ∃ changes, c.surface.updates = told ++ changes ∧ d.surface.updates = told' ++ changes

variable {told told' : Array Update} {c d : Controller Recording ω}

namespace Twins

/-- Twins stay twins when the same change is shown on both surfaces. -/
theorem update (h : Twins alike told told' c d) (change : Update) :
    Twins alike told told' (c.update (recordingDesk staff) change)
      (d.update (recordingDesk staff) change) := by
  obtain ⟨changes, hc, hd⟩ := h.updates
  refine ⟨h.state, h.breakpoints, h.session, h.source, h.workers, changes.push change, ?_, ?_⟩
  · exact (congrArg (Array.push · change) hc).trans Array.push_append
  · exact (congrArg (Array.push · change) hd).trans Array.push_append

theorem enter (h : Twins alike told told' c d) (state : ControllerState) :
    Twins alike told told' { c with state } { d with state } :=
  ⟨rfl, h.breakpoints, h.session, h.source, h.workers, h.updates⟩

/-- Twins stay twins when both show their controls. -/
theorem showControls (h : Twins alike told told' c d) :
    Twins alike told told' (c.showControls (recordingDesk staff))
      (d.showControls (recordingDesk staff)) := by
  rw [Controller.showControls, Controller.showControls, h.state]
  exact h.update _

/-- Twins crash into twins. -/
theorem crash (h : Twins alike told told' c d) (message : String) :
    Twins alike told told' (c.crash (recordingDesk staff) message)
      (d.crash (recordingDesk staff) message) :=
  ((h.enter .crashed).update _).showControls

/-- Effects do the same to twins. -/
theorem perform (hstaff : staff.IsBisimulation alike) (h : Twins alike told told' c d)
    (effects : List Effect) :
    Twins alike told told' (Controller.perform (recordingDesk staff) effects c)
      (Controller.perform (recordingDesk staff) effects d) := by
  induction effects generalizing c d with
  | nil => exact h
  | cons effect effects ih =>
    cases effect with
    | update change => exact ih (h.update change)
    | replaceWorker =>
      exact ih ⟨h.state, h.breakpoints, hstaff.hire_session h.workers, h.source,
        hstaff.hire_workers h.workers, h.updates⟩
    | send command =>
      have hsend := hstaff.send command h.workers
      rw [Controller.perform, Controller.perform]
      dsimp only [recordingDesk]
      generalize staff.send command c.workers = reply, staff.send command d.workers = reply'
        at hsend ⊢
      cases hsend with
      | none => exact h.crash _
      | some hworkers =>
        exact ih ⟨h.state, h.breakpoints, h.session, h.source, hworkers, h.updates⟩

/-- Twins stay twins after the same input. -/
theorem apply (hstaff : staff.IsBisimulation alike) (h : Twins alike told told' c d)
    (input : Input) :
    Twins alike told told' (c.apply (recordingDesk staff) input)
      (d.apply (recordingDesk staff) input) := by
  rcases htransition : d.state.transition d.breakpoints input with ⟨state, effects⟩
  have hsame : c.state.transition c.breakpoints input = (state, effects) := by
    rw [h.state, h.breakpoints, htransition]
  rw [apply_of_transition hsame, apply_of_transition htransition]
  exact ((h.enter state).perform hstaff effects).showControls

/-- Twins take the same things for the same inputs. -/
theorem input?_eq (h : Twins alike told told' c d) (happening : Happening ω) :
    c.input? happening = d.input? happening := by
  cases happening with
  | action action => exact congrArg action.input? h.source
  | message text =>
    cases text with
    | none => rfl
    | some text => rw [input?, input?, h.session]
  | edit source | work workers => rfl

/-- Twins make the same attempts to give a command, whatever comes of them. -/
theorem map_fst_attempts (hstaff : staff.IsBisimulation alike) (effects : List Effect)
    {workers workers' : ω} (h : alike workers workers') :
    (attempts staff effects workers).map Prod.fst =
      (attempts staff effects workers').map Prod.fst := by
  induction effects generalizing workers workers' with
  | nil => rfl
  | cons effect effects ih =>
    cases effect with
    | update change => exact ih h
    | replaceWorker => exact ih (hstaff.hire_workers h)
    | send command =>
      have hsend := hstaff.send command h
      rw [attempts, attempts, List.map_cons, List.map_cons]
      generalize staff.send command workers = reply, staff.send command workers' = reply'
        at hsend ⊢
      cases hsend with
      | none => rfl
      | some hworkers => exact congrArg (command :: ·) (ih hworkers)

/-- The breakpoints that the user sets are those of both twins. -/
theorem showBreakpoints (h : Twins alike told told' c d) (breakpoints : Breakpoints) :
    Twins alike told told'
      (Controller.showBreakpoints (recordingDesk staff) { c with breakpoints })
      (Controller.showBreakpoints (recordingDesk staff) { d with breakpoints }) :=
  update (c := { c with breakpoints }) (d := { d with breakpoints })
    ⟨h.state, rfl, h.session, h.source, h.workers, h.updates⟩ _

/-- Twins do the same about an input. -/
theorem handle_of_input? (hstaff : staff.IsBisimulation alike) (h : Twins alike told told' c d)
    {happening : Happening ω} {input : Input} (hinput : d.input? happening = some input) :
    Twins alike told told' (c.handle staff happening) (d.handle staff happening) := by
  have hsame : c.input? happening = some input := (h.input?_eq happening).trans hinput
  rw [Controller.handle_of_input? hsame, Controller.handle_of_input? hinput]
  exact h.apply hstaff input

/-- Twins stay twins when the user does the same to both. -/
theorem action (hstaff : staff.IsBisimulation alike) (h : Twins alike told told' c d)
    (action : Action) :
    Twins alike told told' (c.handle staff (.action action)) (d.handle staff (.action action)) := by
  cases hinput : d.input? (.action action : Happening ω) with
  | some input => exact h.handle_of_input? hstaff hinput
  | none =>
    -- What is left is about the breakpoints alone, or nothing at all.
    cases action with
    | run | step | reset => cases hinput
    | addBreakpoint text =>
      rw [handle, handle, act, act, addBreakpoint, addBreakpoint, h.breakpoints]
      cases Breakpoints.line? text with
      | none => exact h
      | some line => exact h.showBreakpoints _
    | removeBreakpoint line =>
      rw [handle, handle, act, act, removeBreakpoint, removeBreakpoint, h.breakpoints]
      exact h.showBreakpoints _
    | listBreakpoints =>
      rw [handle, handle, act, act, Controller.showBreakpoints, h.breakpoints]
      exact h.update _
    | quit => exact h

/-- Twins stay twins after the same message. -/
theorem message (hstaff : staff.IsBisimulation alike) (h : Twins alike told told' c d)
    (text : Option String) :
    Twins alike told told' (c.handle staff (.message text)) (d.handle staff (.message text)) := by
  cases hinput : d.input? (.message text : Happening ω) with
  | some input => exact h.handle_of_input? hstaff hinput
  | none =>
    rw [handle_message_of_none hinput, handle_message_of_none ((h.input?_eq _).trans hinput)]
    exact h

/-- Twins attempt to give the same commands. -/
theorem map_fst_attemptsOn (hstaff : staff.IsBisimulation alike)
    (h : Twins alike told told' c d) (happening : Happening ω) :
    (c.attemptsOn staff happening).map Prod.fst = (d.attemptsOn staff happening).map Prod.fst := by
  rw [attemptsOn, attemptsOn, h.input?_eq, h.state, h.breakpoints]
  cases d.input? happening with
  | none => rfl
  | some input => exact map_fst_attempts hstaff _ h.workers

/-- Whatever happens to twins, they give the same commands and stay twins, as long as they listen to
    no stale session. -/
theorem foldl_handle (hstaff : staff.IsBisimulation alike) (h : Twins alike told told' c d)
    {happenings happenings' : List (Happening ω)}
    (halongside : Alongside alike stale happenings happenings')
    (hfresh : ∀ session ∈ sessions staff c happenings, ¬stale session) :
    Twins alike told told' (happenings.foldl (handle staff) c)
        (happenings'.foldl (handle staff) d) ∧
      commands staff c happenings = commands staff d happenings' := by
  induction halongside generalizing c d with
  | nil => exact ⟨h, rfl⟩
  | action action _ ih =>
    obtain ⟨htwins, hcommands⟩ := ih (h.action hstaff action)
      fun session hmem => hfresh session (List.mem_cons_of_mem _ hmem)
    exact ⟨htwins, congrArg₂ (· ++ ·) (h.map_fst_attemptsOn hstaff _) hcommands⟩
  | message text _ ih =>
    obtain ⟨htwins, hcommands⟩ := ih (h.message hstaff text)
      fun session hmem => hfresh session (List.mem_cons_of_mem _ hmem)
    exact ⟨htwins, congrArg₂ (· ++ ·) (h.map_fst_attemptsOn hstaff _) hcommands⟩
  | edit source _ ih =>
    refine ih ⟨h.state, h.breakpoints, h.session, rfl, h.workers, h.updates⟩
      fun session hmem => hfresh session (List.mem_cons_of_mem _ hmem)
  | work hworkers _ ih =>
    refine ih ⟨h.state, h.breakpoints, h.session, h.source, hworkers, h.updates⟩
      fun session hmem => hfresh session (List.mem_cons_of_mem _ hmem)
  | late hdecode hstale _ ih =>
    -- The message is dropped, as the present session is not a stale one.
    have hother : _ ≠ c.session := fun heq =>
      hfresh c.session List.mem_cons_self (heq ▸ hstale)
    have hnone := input?_late hdecode hother
    have hsame : c.handle staff (.message _) = c := handle_message_of_none hnone
    rw [List.foldl_cons, commands, hsame, attemptsOn, hnone]
    refine ih h fun session hmem => hfresh session (List.mem_cons_of_mem _ ?_)
    rwa [hsame]

end Twins

/-! ## Resets -/

/-- A controller that has been reset is the twin of one that has just been set up, when the two
    begin with the same worker and the same text in the editor. -/
theorem twins_reset (hstaff : staff.IsBisimulation alike) (c : Controller Recording ω)
    {recording : Recording} {workers : ω} (hsource : recording.source = c.surface.source)
    (hsession : (staff.hire c.workers).1 = (staff.hire workers).1)
    (hworkers : alike (staff.hire c.workers).2 (staff.hire workers).2) :
    Twins alike (c.surface.updates ++ #[.clearOutput, .clearVariables, .appendOutput resetText])
      (recording.updates ++ #[.showBreakpoints c.breakpoints.lines])
      (c.reset (recordingDesk staff))
      (.new (recordingDesk staff) c.breakpoints recording workers) := by
  -- Both are about to ask the worker to load its interpreter.
  let announced : Recording := [Update.clearOutput, .clearVariables, .appendOutput resetText].foldl
    (fun recording change => Recording.surface.update change recording) c.surface
  let shown : Recording :=
    Recording.surface.update (.showBreakpoints c.breakpoints.lines) recording
  have hbegun : Twins alike
      (c.surface.updates ++ #[.clearOutput, .clearVariables, .appendOutput resetText])
      (recording.updates ++ #[.showBreakpoints c.breakpoints.lines])
      (⟨.loading, c.breakpoints, (staff.hire c.workers).1, announced, (staff.hire c.workers).2⟩)
      (⟨.loading, c.breakpoints, (staff.hire workers).1, shown, (staff.hire workers).2⟩) := by
    refine ⟨rfl, rfl, hsession, hsource.symm, hworkers, #[], ?_, ?_⟩
    · exact Array.toList_inj.1 (by simp [announced, Recording.surface])
    · exact Array.toList_inj.1 (by simp [shown, Recording.surface])
  exact (hbegun.perform hstaff [.send .load]).showControls

/-- A reset erases the history of a controller, and messages of earlier workers are inert.

    Take a controller with any history that is reset, and one that has just been set up with the
    same breakpoints and the same text in the editor, where both begin with the same worker. From
    then on the same things happen to both, except that messages of workers that the first one had
    before its reset reach it as well, at any time; and no worker that it has since then has the
    session of one of these. Then the two are always in the same state, listen to the same session,
    stop at the same breakpoints and have workers that nobody can tell apart. They have given the
    same commands since the reset, the one to load the interpreter among them, and have made the
    same changes to their surfaces after those that announce the reset and the setup. -/
theorem reset_renews (hstaff : staff.IsBisimulation alike) (breakpoints : Breakpoints)
    (recording recording' : Recording) (workers workers' : ω)
    (past later later' : List (Happening ω)) :
    let c := history staff breakpoints recording workers past
    let earlier :=
      sessions staff (.new (recordingDesk staff) breakpoints recording workers) past
    let reset := c.reset (recordingDesk staff)
    let begun := Controller.new (recordingDesk staff) c.breakpoints recording' workers'
    recording'.source = c.surface.source →
    (staff.hire c.workers).1 = (staff.hire workers').1 →
    alike (staff.hire c.workers).2 (staff.hire workers').2 →
    Alongside alike (· ∈ earlier) later later' →
    (∀ session ∈ sessions staff reset later, session ∉ earlier) →
    let renewed := later.foldl (handle staff) reset
    let fresh := later'.foldl (handle staff) begun
    renewed.state = fresh.state ∧ renewed.session = fresh.session ∧
      renewed.breakpoints = fresh.breakpoints ∧ alike renewed.workers fresh.workers ∧
      commands staff c (.action .reset :: later) =
        (firstAttempts staff workers').map Prod.fst ++ commands staff begun later' ∧
      ∃ changes,
        renewed.surface.updates = c.surface.updates ++
          #[.clearOutput, .clearVariables, .appendOutput resetText] ++ changes ∧
        fresh.surface.updates =
          recording'.updates ++ #[.showBreakpoints c.breakpoints.lines] ++ changes := by
  intro c earlier reset begun hsource hsession hworkers hlater hfresh renewed fresh
  -- The two are twins right after the reset, and so after all that happens later: messages of
  -- earlier sessions reach only the one, which does not listen to them.
  obtain ⟨htwins, hcommands⟩ :=
    (twins_reset hstaff c hsource hsession hworkers).foldl_handle hstaff hlater hfresh
  have hload : (c.attemptsOn staff (.action .reset)).map Prod.fst =
      (firstAttempts staff workers').map Prod.fst :=
    Twins.map_fst_attempts hstaff [.send .load] hworkers
  exact ⟨htwins.state, htwins.session, htwins.breakpoints, htwins.workers,
    congrArg₂ (· ++ ·) hload hcommands, htwins.updates⟩

/-- A worker of a crew tells of an event. -/
def tells (session : SessionId) (event : Event) : Happening Crew :=
  .message (some (Envelope.encode ⟨session, event⟩))

/-- What a worker tells of an event counts only in its own session. -/
theorem handle_tells (c : Controller Recording Crew) (session : SessionId) (event : Event) :
    c.handle Crew.staff (tells session event) =
      if session = c.session then c.apply (recordingDesk Crew.staff) (.event event) else c := by
  have hdecode := Envelope.decode_encode ⟨session, event⟩
  rw [tells, handle, receive, hdecode]

theorem input?_tells (c : Controller Recording Crew) (session : SessionId) (event : Event) :
    c.input? (tells session event) = if session = c.session then some (.event event) else none := by
  rw [tells, input?, Envelope.decode_encode]

/-- A line that was reached by a worker which has been replaced in the meantime is not shown,
    neither while the next worker loads its interpreter nor later on. -/
theorem reset_renews_belated :
    let crew : Crew := .new ⟨0⟩ ⟨5, 20⟩ (.ok ⟨10, 20⟩)
    let past := [tells ⟨0⟩ .ready, .action .step]
    let earlier :=
      sessions Crew.staff (.new (recordingDesk Crew.staff) .empty (.new "pass") crew) past
    let late := tells ⟨0⟩ (.lineExecuted 1 .empty)
    let later := [late, tells ⟨1⟩ .ready, late, .action .step]
    let later' := [tells ⟨1⟩ .ready, .action .step]
    Crew.staff.hire (history Crew.staff .empty (.new "pass") crew past).workers =
        Crew.staff.hire { crew with hired := 1 } ∧
      Alongside Eq (· ∈ earlier) later later' ∧
      (later.foldl (handle Crew.staff)
          ((history Crew.staff .empty (.new "pass") crew past).reset
            (recordingDesk Crew.staff))).state =
        .awaitingPause .step ∧
      commands Crew.staff (history Crew.staff .empty (.new "pass") crew past)
          (.action .reset :: later) = [.load, .startExecution "pass"] := by
  intro crew past earlier late later later'
  have hearlier : earlier = [⟨0⟩, ⟨0⟩, ⟨0⟩] := by
    simp only [earlier, past, sessions, handle_tells]
    rfl
  have hsource : (Recording.new "pass").source =
      (history Crew.staff .empty (.new "pass") crew past).surface.source := by
    simp only [history, past, List.foldl_cons, handle_tells]
    rfl
  have hhire : Crew.staff.hire (history Crew.staff .empty (.new "pass") crew past).workers =
      Crew.staff.hire { crew with hired := 1 } := by
    simp only [history, past, List.foldl_cons, handle_tells]
    rfl
  have hlater : Alongside Eq (· ∈ earlier) later later' := by
    have hstale : (⟨0⟩ : SessionId) ∈ earlier := hearlier ▸ List.mem_cons_self
    exact .late (Envelope.decode_encode _) hstale (.message _
      (.late (Envelope.decode_encode _) hstale (.action _ .nil)))
  have hsince : sessions Crew.staff
      ((history Crew.staff .empty (.new "pass") crew past).reset (recordingDesk Crew.staff)) later =
        List.replicate 5 ⟨1⟩ := by
    simp only [history, past, later, late, sessions, List.foldl_cons, handle_tells]
    rfl
  -- The worker hired at the reset has a session of its own.
  have hfresh : ∀ session ∈ sessions Crew.staff
      ((history Crew.staff .empty (.new "pass") crew past).reset (recordingDesk Crew.staff)) later,
      session ∉ earlier := by
    rw [hsince, hearlier]
    decide
  obtain ⟨hstate, -, -, -, hcommands, -⟩ := reset_renews Crew.staff.isBisimulation_eq .empty
    (.new "pass") (.new "pass") crew { crew with hired := 1 } past later later' hsource
    (congrArg Prod.fst hhire) (congrArg Prod.snd hhire) hlater hfresh
  refine ⟨hhire, hlater, hstate.trans ?_, hcommands.trans ?_⟩
  · simp only [later', List.foldl_cons, handle_tells]
    rfl
  · simp only [later', history, past, commands, attemptsOn, List.foldl_cons, handle_tells,
      input?_tells]
    rfl

end Controller

end Linewise
