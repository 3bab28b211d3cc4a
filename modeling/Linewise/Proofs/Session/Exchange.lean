import Linewise.Proofs.Session.Service

/-!
# One answer to each text

A worker hands its session one text after the other, whatever the texts are and in whatever order
they come (`Session.serve`). Each of them has one answer (`Exchange.Answered`):

* the request to load the interpreter is answered by whether there is one, each time alike;
* every other text is answered by one response, and only a response that the run cannot be reported
  any more is followed by what the run prints.

A request that is answered without a line leaves no run to go on with, so no line is told until the
next request to start one (`Session.serve_answered`). Every text is answered in finite time when the
runs of the scripts end.
-/

namespace Linewise

open Wire (Command Event Envelope SessionId)

/-- The run from the machine on comes to an end. -/
def Machine.Halts (m : Machine) : Prop := ∃ sights outcome last, m.Ends sights outcome last

namespace Session

variable {loader : Except LoadFault Interpreter} {session loaded after last : Session}
  {e : Execution} {m : Machine} {told : List Event} {text : String} {texts : List String}
  {command : Command} {fuel : Nat}

/-! ## One text -/

/-- A text that a session was sent, and what it told of it. -/
structure Exchange where
  text : String
  events : List Event

namespace Exchange

/-- The text asks for a response. -/
def IsRequest (x : Exchange) : Prop :=
  ∃ command, Command.decode x.text = .ok command ∧ command.isRequest = true

/-- The text asks for a new run. -/
def Starts (x : Exchange) : Prop := ∃ source, Command.decode x.text = .ok (.startExecution source)

/-- No line was told. A request like this has ended a run, or there was none. -/
def IsQuiet (x : Exchange) : Prop := ∀ event ∈ x.events, event.isLine = false

/-- The request to load the interpreter was answered by what loading gives, and any other text by
    one response. -/
def Answered (loader : Except LoadFault Interpreter) (x : Exchange) : Prop :=
  match Command.decode x.text with
  | .ok .load => ∃ texts, x.events = outputs texts ++ [announcement loader]
  | .ok (.startExecution _) | .ok .continueExecution | .error _ =>
    ∃ response, Responds response x.events

end Exchange

/-- Somebody listens to the session, loading gives what it always gives, and there is a run to go
    on with when the session says so. -/
structure Steady (loader : Except LoadFault Interpreter) (session : Session) : Prop where
  isOpen : session.isOpen = true
  interpreter : session.interpreter = loader
  watched : session.state.canContinue = true → ∃ e, session.execution = some e ∧ e.IsWatched

/-- A new session is steady. -/
theorem steady_new (id : SessionId) (limits : SnapshotLimits)
    (loader : Except LoadFault Interpreter) : Steady loader (new id limits loader) :=
  ⟨rfl, rfl, nofun⟩

theorem Steady.of_continues (h : Steady loader session) (hcontinues : session.Continues after)
    (hwatched : after.state.canContinue = true → ∃ e, after.execution = some e ∧ e.IsWatched) :
    Steady loader after :=
  ⟨hcontinues.isOpen.trans h.isOpen, hcontinues.interpreter.trans h.interpreter, hwatched⟩

/-- A run that can go on is watched. -/
theorem Advances.exists_execution (h : session.Advances m told after)
    (hstate : after.state.canContinue = true) : ∃ e, after.execution = some e ∧ e.IsWatched := by
  obtain ⟨hruns, hquiet, hreports⟩ := h
  obtain ⟨line, m', -, -, -, rfl⟩ := hreports.exists_execution hstate
  exact ⟨_, rfl, rfl, rfl⟩

/-- A request is answered by one response, and by a line if there is a run to go on with then. -/
theorem Steady.request {told : Array Event} (h : Steady loader session)
    (hdecode : Command.decode text = .ok command) (hrequest : command.isRequest = true)
    (hreceive : session.receive fuel text = some (after, told)) :
    session.Continues after ∧ Steady loader after ∧
      ∃ response, Responds response told.toList ∧ response.isLine = after.state.canContinue := by
  cases command with
  | load => cases hrequest
  | startExecution source =>
    cases loader with
    | error fault =>
      -- The loading of the interpreter may have printed, and its failure is the response.
      obtain ⟨loaded, heard, texts, hcontinues, hstate, -, hheard, hstart⟩ :=
        exists_start_eq h.isOpen source
      have hidle : loaded.state.canContinue = false := by rw [hstate]; rfl
      rw [receive_of_decode hdecode, handle, hstart, h.interpreter] at hreceive
      simp only [Option.map_some, reported_error (hcontinues.isOpen.trans h.isOpen)] at hreceive
      cases hreceive
      refine ⟨hcontinues, h.of_continues hcontinues fun hstate => ?_,
        .error (SessionError.load fault).message, ?_, hidle.symm⟩
      · rw [hidle] at hstate
        cases hstate
      · rw [Array.toList_push, hheard]
        exact (responds_single rfl).prepend texts
    | ok interpreter =>
      obtain ⟨loaded, texts, new, hcontinues, htold, ⟨fault, -, rfl, rfl, hstate⟩ |
        ⟨code, -, hadvances⟩⟩ := receive_startExecution h.isOpen h.interpreter hdecode hreceive
      · have herrored : loaded.state.canContinue = false := by rw [hstate]; rfl
        refine ⟨hcontinues, h.of_continues hcontinues fun hstate => ?_, .error fault.text, ?_,
          herrored.symm⟩
        · rw [herrored] at hstate
          cases hstate
        · rw [htold]
          exact (responds_single rfl).prepend texts
      · have hafter := hcontinues.trans hadvances.continues
        obtain ⟨response, hresponds, hline⟩ := hadvances.responds
        refine ⟨hafter, h.of_continues hafter hadvances.exists_execution, response, ?_, hline⟩
        rw [htold]
        exact hresponds.prepend texts
  | continueExecution =>
    cases hstate : session.state.canContinue with
    | true =>
      obtain ⟨e, hexecution, hwatched⟩ := h.watched hstate
      have hadvances :=
        receive_continueExecution h.isOpen hstate hexecution hwatched hdecode hreceive
      exact ⟨hadvances.continues,
        h.of_continues hadvances.continues hadvances.exists_execution, hadvances.responds⟩
    | false =>
      rw [receive_refuses h.isOpen hstate hdecode] at hreceive
      cases hreceive
      exact ⟨.refl session, h, _, responds_single rfl, hstate.symm⟩

/-- What a session does with one text. -/
structure Takes (loader : Except LoadFault Interpreter) (before : Session) (x : Exchange)
    (after : Session) : Prop where
  continues : before.Continues after
  steady : Steady loader after
  answered : x.Answered loader
  /-- A request that is answered without a line leaves no run to go on with. -/
  ends : x.IsRequest → x.IsQuiet → after.state.canContinue = false
  /-- Without a run to go on with, no line is told unless a run is started. -/
  rests : before.state.canContinue = false → ¬x.Starts →
    after.state.canContinue = false ∧ x.IsQuiet

/-- A text that spells no command is answered by an error and changes nothing. -/
theorem Steady.takes_malformed {told : Array Event} {complaint : Wire.Malformed}
    (h : Steady loader session) (hdecode : Command.decode text = .error complaint)
    (hreceive : session.receive fuel text = some (after, told)) :
    Takes loader session ⟨text, told.toList⟩ after := by
  rw [receive_malformed h.isOpen hdecode] at hreceive
  cases hreceive
  refine ⟨.refl session, h, ?_, ?_, fun hstate _ => ⟨hstate, ?_⟩⟩
  · rw [Exchange.Answered, hdecode]
    exact ⟨_, responds_single rfl⟩
  · rintro ⟨command, hcommand, -⟩
    rw [hdecode] at hcommand
    cases hcommand
  · exact (responds_single rfl).forall_isLine_iff.2 rfl

/-- A request to load the interpreter is answered by what loading gives, and does nothing to a
    run. -/
theorem Steady.takes_load {told : Array Event} (h : Steady loader session)
    (hdecode : Command.decode text = .ok .load)
    (hreceive : session.receive fuel text = some (after, told)) :
    Takes loader session ⟨text, told.toList⟩ after := by
  obtain ⟨loaded, heard, texts, hinitiate, hcontinues, hstate, hexecution, hheard⟩ :=
    exists_initiate_eq h.isOpen
  rw [receive_of_decode hdecode, handle, hinitiate, Option.map_some] at hreceive
  cases hreceive
  refine ⟨hcontinues, h.of_continues hcontinues ?_, ?_, ?_, fun hidle _ => ⟨?_, ?_⟩⟩
  · rw [hstate, hexecution]
    exact h.watched
  · rw [Exchange.Answered, hdecode]
    exact ⟨texts, by rw [← h.interpreter]; exact hheard⟩
  · rintro ⟨command, hcommand, hrequest⟩
    rw [hdecode] at hcommand
    cases hcommand
    cases hrequest
  · rwa [hstate]
  -- Neither the texts nor the answer tells of a line.
  · intro event hevent
    change event ∈ heard.toList at hevent
    rw [hheard] at hevent
    rcases List.mem_append.1 hevent with htext | hlast
    · exact isLine_of_mem_outputs htext
    · rw [List.mem_singleton.1 hlast]
      cases session.interpreter <;> rfl

/-- A request to start or to go on is answered by one response. It ends the run if no line is told,
    and without a run no line is told until the next start. -/
theorem Steady.takes_request {told : Array Event} (h : Steady loader session)
    (hdecode : Command.decode text = .ok command) (hrequest : command.isRequest = true)
    (hreceive : session.receive fuel text = some (after, told)) :
    Takes loader session ⟨text, told.toList⟩ after := by
  obtain ⟨hcontinues, hsteady, response, hresponds, hline⟩ :=
    h.request hdecode hrequest hreceive
  refine ⟨hcontinues, hsteady, ?_, fun _ hquiet => ?_, fun hstate hstarts => ?_⟩
  · rw [Exchange.Answered, hdecode]
    cases command with
    | load => cases hrequest
    | startExecution source => exact ⟨response, hresponds⟩
    | continueExecution => exact ⟨response, hresponds⟩
  · rw [← hline]
    exact hresponds.forall_isLine_iff.1 hquiet
  · cases command with
    | load => cases hrequest
    | startExecution source => exact absurd ⟨source, hdecode⟩ hstarts
    | continueExecution =>
      -- A session without a run refuses to go on.
      rw [receive_refuses h.isOpen hstate hdecode] at hreceive
      cases hreceive
      exact ⟨hstate, (responds_single rfl).forall_isLine_iff.2 rfl⟩

/-- A steady session takes any text as `Takes` says, and is steady afterwards. -/
theorem Steady.takes {told : Array Event} (h : Steady loader session)
    (hreceive : session.receive fuel text = some (after, told)) :
    Takes loader session ⟨text, told.toList⟩ after := by
  cases hdecode : Command.decode text with
  | error complaint => exact h.takes_malformed hdecode hreceive
  | ok command =>
    cases command with
    | load => exact h.takes_load hdecode hreceive
    | startExecution source => exact h.takes_request hdecode rfl hreceive
    | continueExecution => exact h.takes_request hdecode rfl hreceive

/-! ## Answers in finite time -/

/-- The run that the session may go on with ends. -/
def Halting (session : Session) : Prop :=
  session.state.canContinue = true → ∀ e, session.execution = some e → e.machine.Halts

/-- If the text asks for a run of a script, that run ends. -/
def EndsRun (loader : Except LoadFault Interpreter) (text : String) : Prop :=
  ∀ interpreter source code, loader = .ok interpreter →
    Command.decode text = .ok (.startExecution source) → interpreter.compile source = .ok code →
      Machine.Halts (.start code interpreter.maxCallDepth)

/-- A run that ends can be told of up to its next line or its end, and ends from there. -/
theorem exists_advances (hm : m.Halts) (session : Session) :
    ∃ told after, session.Advances m told after ∧ after.Halting := by
  obtain ⟨sights, outcome, last, hends⟩ := hm
  rcases hends.quiet_or with hquiet | ⟨n, quiet, m₁, line, m₂, rest, hruns, hquiet, hstep, hrest, -⟩
  · obtain ⟨n, m₁, hruns, hend⟩ := hends
    rcases Machine.Progress.eq_of_outcome? hend with ⟨-, hstep⟩ | ⟨fault, -, hstep⟩
    · exact ⟨_, _, .mk hruns hquiet (.finished hstep), nofun⟩
    · exact ⟨_, _, .mk hruns hquiet (.faulted hstep), nofun⟩
  · by_cases hfits : Snapshot.Fits session.limits (m₂.view line)
    · refine ⟨_, _, .mk hruns hquiet (.line hstep hfits), fun _ e he => ?_⟩
      cases he
      exact ⟨rest, outcome, last, hrest⟩
    · obtain ⟨failure, hfailure⟩ := Snapshot.exists_capture_of_not_fits hfits
      exact ⟨_, _, .mk hruns hquiet (.tooLarge hstep hfits hfailure hrest), nofun⟩

/-- A session goes on with a run that ends in finite time. -/
theorem exists_receive_advance (events : Array Event) (hopen : session.isOpen = true)
    (he : session.execution = some e) (hwatched : e.IsWatched) (hm : e.machine.Halts)
    (hreceive : ∀ fuel, loaded.receive fuel text =
      (session.advance fuel events).map Reaction.reported) :
    ∃ n after told, after.Halting ∧ ∀ fuel, n ≤ fuel →
      loaded.receive fuel text = some (after, told) := by
  obtain ⟨new, after, hadvances, hhalting⟩ := exists_advances hm session
  obtain ⟨n, hadvance⟩ := advance_of_advances hopen he hwatched hadvances events
  refine ⟨n, after, events ++ new, hhalting, fun fuel hfuel => ?_⟩
  rw [hreceive, hadvance fuel hfuel]
  rfl

/-- Every text is answered in finite time when the runs end. -/
theorem Steady.exists_receive (h : Steady loader session) (hhalting : session.Halting)
    (hends : EndsRun loader text) : ∃ n after told, after.Halting ∧ ∀ fuel, n ≤ fuel →
      session.receive fuel text = some (after, told) := by
  cases hdecode : Command.decode text with
  | error complaint =>
    exact ⟨0, _, _, hhalting, fun fuel _ => receive_malformed h.isOpen hdecode fuel⟩
  | ok command =>
    have hreceive : ∀ fuel, session.receive fuel text =
        (session.handle fuel command).map Reaction.reported :=
      fun _ => receive_of_decode hdecode
    cases command with
    | load =>
      obtain ⟨loaded, heard, texts, hinitiate, -, hstate, hexecution, -⟩ :=
        exists_initiate_eq h.isOpen
      refine ⟨0, loaded, heard, ?_, fun fuel _ => ?_⟩
      · rw [Halting, hstate, hexecution]
        exact hhalting
      · rw [hreceive, handle, hinitiate]
        rfl
    | continueExecution =>
      cases hstate : session.state.canContinue with
      | false =>
        exact ⟨0, _, _, hhalting, fun fuel _ => receive_refuses h.isOpen hstate hdecode fuel⟩
      | true =>
        obtain ⟨e, he, hwatched⟩ := h.watched hstate
        refine exists_receive_advance #[] h.isOpen he hwatched (hhalting hstate e he) fun fuel => ?_
        rw [hreceive, handle, proceed_eq_advance hstate]
    | startExecution source =>
      obtain ⟨loaded, heard, texts, hcontinues, hidle, -, -, hstart⟩ :=
        exists_start_eq h.isOpen source
      have hrests : loaded.Halting := fun hstate => by
        rw [hidle] at hstate
        cases hstate
      simp only [handle, hstart, h.interpreter] at hreceive
      cases hloader : loader with
      | error fault =>
        simp only [hloader] at hreceive
        exact ⟨0, _, _, hrests, fun fuel _ => hreceive fuel⟩
      | ok interpreter =>
        simp only [hloader] at hreceive
        cases hcompile : interpreter.compile source with
        | error fault =>
          simp only [hcompile] at hreceive
          -- A source that does not compile needs no fuel, and leaves nothing to continue.
          exact ⟨0, { loaded with execution := none, state := .errored }, _, by rintro ⟨⟩,
            fun fuel _ => hreceive fuel⟩
        | ok code =>
          simp only [hcompile] at hreceive
          -- Otherwise the fuel is that of the first stretch of the new run.
          let started : Session :=
            { loaded with execution := some (.start code interpreter.maxCallDepth true) }
          have hstartedOpen : started.isOpen = true := hcontinues.isOpen.trans h.isOpen
          exact exists_receive_advance heard hstartedOpen rfl ⟨rfl, rfl⟩
            (hends interpreter source code hloader hdecode hcompile) hreceive

/-! ## One text after the other -/

/-- The session after some texts, and what it has told of each, `none` when a stretch of a run takes
    more than `fuel` steps. -/
def serve (fuel : Nat) (session : Session) : List String → Option (Session × List Exchange)
  | [] => some (session, [])
  | text :: texts =>
    match session.receive fuel text with
    | none => none
    | some (after, told) =>
      (after.serve fuel texts).map fun (last, exchanges) =>
        (last, ⟨text, told.toList⟩ :: exchanges)

/-- A session that takes some texts, each of them as `Takes` says. -/
inductive Serves (loader : Except LoadFault Interpreter) :
    Session → List Exchange → Session → Prop
  | nil {before : Session} : Serves loader before [] before
  | cons {before after last : Session} {x : Exchange} {exchanges : List Exchange}
      (h : Takes loader before x after) (hrest : Serves loader after exchanges last) :
      Serves loader before (x :: exchanges) last

variable {exchanges between later : List Exchange}

/-- Texts are taken one by one. -/
theorem exists_of_serve_cons
    (h : session.serve fuel (text :: texts) = some (last, exchanges)) :
    ∃ after told rest, session.receive fuel text = some (after, told) ∧
      after.serve fuel texts = some (last, rest) ∧ exchanges = ⟨text, told.toList⟩ :: rest := by
  rw [serve] at h
  split at h
  · cases h
  next after told hreceive =>
    obtain ⟨⟨last', rest⟩, hrest, heq⟩ := Option.map_eq_some_iff.1 h
    cases heq
    exact ⟨after, told, rest, hreceive, hrest, rfl⟩

/-- A steady session takes texts one after the other. -/
theorem Steady.serves (h : Steady loader session)
    (hserve : session.serve fuel texts = some (last, exchanges)) :
    Serves loader session exchanges last := by
  induction texts generalizing session exchanges with
  | nil => cases hserve; exact .nil
  | cons text texts ih =>
    obtain ⟨after, told, rest, hreceive, hrest, rfl⟩ := exists_of_serve_cons hserve
    have htakes := h.takes hreceive
    exact .cons htakes (ih htakes.steady hrest)

/-- The exchanges are about the texts that were sent. -/
theorem map_text_of_serve (h : session.serve fuel texts = some (last, exchanges)) :
    exchanges.map Exchange.text = texts := by
  induction texts generalizing session exchanges with
  | nil => cases h; rfl
  | cons text texts ih =>
    obtain ⟨after, told, rest, -, hrest, rfl⟩ := exists_of_serve_cons h
    rw [List.map_cons, ih hrest]

/-- Each text is answered as it should be. -/
theorem Serves.answered (h : Serves loader session exchanges last) :
    ∀ x ∈ exchanges, x.Answered loader := by
  induction h with
  | nil => exact nofun
  | cons h _ ih => exact List.forall_mem_cons.2 ⟨h.answered, ih⟩

/-- Without a run to go on with, no line is told until a run is started. -/
theorem Serves.rests (h : Serves loader session (between ++ later) last)
    (hstate : session.state.canContinue = false) (hstarts : ∀ x ∈ between, ¬x.Starts) :
    ∀ x ∈ between, x.IsQuiet := by
  induction between generalizing session with
  | nil => exact nofun
  | cons x between ih =>
    obtain ⟨hx, hbetween⟩ := List.forall_mem_cons.1 hstarts
    cases h with
    | cons htakes hrest =>
      obtain ⟨hafter, hquiet⟩ := htakes.rests hstate hx
      exact List.forall_mem_cons.2 ⟨hquiet, ih hrest hafter hbetween⟩

/-- A request that is answered without a line is followed by no line until a run is started. -/
theorem Serves.ends {earlier : List Exchange} {x : Exchange}
    (h : Serves loader session (earlier ++ x :: (between ++ later)) last)
    (hrequest : x.IsRequest) (hquiet : x.IsQuiet) (hstarts : ∀ y ∈ between, ¬y.Starts) :
    ∀ y ∈ between, y.IsQuiet := by
  induction earlier generalizing session with
  | nil =>
    cases h with
    | cons htakes hrest => exact hrest.rests (htakes.ends hrequest hquiet) hstarts
  | cons y earlier ih =>
    cases h with
    | cons htakes hrest => exact ih hrest

/-- A session that goes on puts its events into the same envelopes. -/
theorem Continues.enveloped (h : session.Continues after) :
    after.enveloped = session.enveloped := by
  funext event
  rw [Session.enveloped, h.id, Session.enveloped]

/-- A worker settles by handing all texts of its inbox to its session, and posts all events. -/
theorem settle_of_serve (h : Steady loader session)
    (hserve : session.serve fuel texts = some (last, exchanges)) (outbox : List String) :
    Worker.settle fuel ⟨session, texts, outbox⟩ =
      some ⟨last, [], outbox ++ exchanges.flatMap fun x => x.events.map session.enveloped⟩ := by
  rw [Worker.settle]
  induction texts generalizing session exchanges outbox with
  | nil => cases hserve; simp
  | cons text texts ih =>
    obtain ⟨after, told, rest, hreceive, hrest, rfl⟩ := exists_of_serve_cons hserve
    have htakes := h.takes hreceive
    have hwork : Worker.work fuel ⟨session, text :: texts, outbox⟩ =
        some ⟨after, texts, outbox ++ told.toList.map session.enveloped⟩ := by
      simp only [Worker.work, hreceive, Option.map_some, htakes.continues.enveloped]
    rw [List.foldlM_cons, hwork]
    have hsettle := ih htakes.steady hrest (outbox ++ told.toList.map session.enveloped)
    rw [htakes.continues.enveloped] at hsettle
    simpa [List.append_assoc] using hsettle

/-- Texts are answered in finite time when the runs that they ask for end. -/
theorem Steady.exists_serve (h : Steady loader session) (hhalting : session.Halting)
    (hends : ∀ text ∈ texts, EndsRun loader text) : ∃ n last exchanges, ∀ fuel, n ≤ fuel →
      session.serve fuel texts = some (last, exchanges) := by
  induction texts generalizing session with
  | nil => exact ⟨0, session, [], fun _ _ => rfl⟩
  | cons text texts ih =>
    obtain ⟨hfirst, hothers⟩ := List.forall_mem_cons.1 hends
    obtain ⟨n, after, told, hafter, hreceive⟩ := h.exists_receive hhalting hfirst
    have htakes := h.takes (hreceive n (Nat.le_refl n))
    obtain ⟨k, last, exchanges, hserve⟩ := ih htakes.steady hafter hothers
    refine ⟨max n k, last, ⟨text, told.toList⟩ :: exchanges, fun fuel hfuel => ?_⟩
    rw [serve, hreceive fuel (by omega)]
    dsimp only
    rw [hserve fuel (by omega), Option.map_some]

/-- Every text that a worker is sent has one answer. Once a request has been answered without a
    line, because the run has ended or there was none, no line is told before the next request to
    start one. All of this takes finite time when the runs end. -/
theorem serve_answered (id : SessionId) (limits : SnapshotLimits)
    (loader : Except LoadFault Interpreter) (texts : List String) :
    (∀ fuel last exchanges, (new id limits loader).serve fuel texts = some (last, exchanges) →
      exchanges.map Exchange.text = texts ∧
      Worker.settle fuel ⟨new id limits loader, texts, []⟩ = some ⟨last, [],
        exchanges.flatMap fun x => x.events.map fun event => Envelope.encode ⟨id, event⟩⟩ ∧
      (∀ x ∈ exchanges, x.Answered loader) ∧
      ∀ earlier x between later, exchanges = earlier ++ x :: (between ++ later) →
        x.IsRequest → x.IsQuiet → (∀ y ∈ between, ¬y.Starts) → ∀ y ∈ between, y.IsQuiet) ∧
    ((∀ text ∈ texts, EndsRun loader text) → ∃ n last exchanges, ∀ fuel, n ≤ fuel →
      (new id limits loader).serve fuel texts = some (last, exchanges)) := by
  have hsteady := steady_new id limits loader
  refine ⟨fun fuel last exchanges hserve => ?_, hsteady.exists_serve nofun⟩
  have hserves := hsteady.serves hserve
  refine ⟨map_text_of_serve hserve, ?_, hserves.answered, ?_⟩
  · rw [settle_of_serve hsteady hserve]
    rfl
  · rintro earlier x between later rfl
    exact hserves.ends

/-- A script that binds a name. -/
def binding : Program := [.assign 1 "a" (.int 1)]

theorem compile_binding : Interpreter.compile ⟨10, 20⟩ "a = 1" = .ok binding.emit := by
  have hparse : Program.parse 20 "a = 1" = .ok binding := by cbv
  exact Interpreter.compile_of_parse hparse rfl

/-- The run of the script comes to its end. -/
theorem halts_binding : Machine.Halts (.start binding.emit 10) := by
  obtain ⟨⟨outcome, e', s⟩, hfinish⟩ : ∃ r, (Execution.start binding.emit 10 false).finish
      (⟨fun _ s => .ok s, fun _ s => s⟩ : Watcher Unit) 20 1 () = some r := ⟨_, rfl⟩
  obtain ⟨sights, last, hends, -⟩ := Execution.ends_of_finish rfl hfinish
  exact ⟨sights, outcome, last, hends⟩

/-- What a session is sent and tells: a request to load its interpreter, two requests that see a
    script of one line to its end, a text that is no command, and one more request to go on. -/
def mixedExchanges : List Exchange :=
  [⟨Command.load.encode, [.output loadingText, .output loadedText, .ready]⟩,
    ⟨(Command.startExecution "a = 1").encode, [.lineExecuted 1 .empty]⟩,
    ⟨Command.continueExecution.encode, [.programEnd]⟩,
    ⟨"?", [.error "malformed message: not a command"]⟩,
    ⟨Command.continueExecution.encode,
      [.error "InvalidStateError: cannot continue: the program has finished"]⟩]

/-- A session tells of these texts what it is supposed to tell. -/
theorem serve_mixedExchanges : ∃ last, (new ⟨0⟩ ⟨0, 10⟩ (.ok ⟨10, 20⟩)).serve 20
    (mixedExchanges.map Exchange.text) = some (last, mixedExchanges) := by
  have hload : (new ⟨0⟩ ⟨0, 10⟩ (.ok ⟨10, 20⟩)).receive 20 Command.load.encode =
      some (terseSession, #[.output loadingText, .output loadedText, .ready]) :=
    receive_load_new ..
  obtain ⟨paused, last, told, hstart, rfl, hend, hopen, hstate⟩ : ∃ paused last told,
      terseSession.receive 20 (Command.startExecution "a = 1").encode = some (paused, told) ∧
        told = #[.lineExecuted 1 .empty] ∧
        paused.receive 20 Command.continueExecution.encode = some (last, #[.programEnd]) ∧
          last.isOpen = true ∧ last.state = .finished := by
    simp only [receive_of_decode (Command.decode_encode _), handle]
    rw [start_of_compile rfl compile_binding]
    exact ⟨_, _, _, rfl, rfl, rfl, rfl, rfl⟩
  have hmalformed : Command.decode "?" = .error ⟨"a command"⟩ := rfl
  have hfinished : last.state.canContinue = false := by rw [hstate]; rfl
  refine ⟨last, ?_⟩
  simp only [mixedExchanges, List.map_cons, List.map_nil, serve, hload, hstart, hend,
    receive_malformed hopen hmalformed, receive_refuses hopen hfinished (Command.decode_encode _),
    hstate]
  rfl

/-- The only run that is asked for ends. -/
theorem endsRun_mixedExchanges :
    ∀ text ∈ mixedExchanges.map Exchange.text, EndsRun (.ok ⟨10, 20⟩) text := by
  have hencode : ∀ command : Command, (∀ source, command = .startExecution source →
      source = "a = 1") → EndsRun (.ok ⟨10, 20⟩) command.encode := by
    rintro command hsource interpreter source code ⟨⟩ hdecode hcompile
    rw [Command.decode_encode] at hdecode
    rw [hsource source (Except.ok.inj hdecode), compile_binding] at hcompile
    cases hcompile
    exact halts_binding
  have hmalformed : EndsRun (.ok ⟨10, 20⟩) "?" := by
    rintro interpreter source code - hdecode -
    cases hdecode
  simp only [mixedExchanges, List.map_cons, List.map_nil, List.forall_mem_cons, List.not_mem_nil,
    false_implies, implies_true, and_true]
  exact ⟨hencode _ (by rintro _ ⟨⟩), hencode _ (by rintro _ ⟨⟩; rfl), hencode _ (by rintro _ ⟨⟩),
    hmalformed, hencode _ (by rintro _ ⟨⟩)⟩

/-- A session answers all that it is sent, and tells no line after the end of its run. -/
theorem serve_answered_mixed :
    (∃ last, (new ⟨0⟩ ⟨0, 10⟩ (.ok ⟨10, 20⟩)).serve 20 (mixedExchanges.map Exchange.text) =
      some (last, mixedExchanges)) ∧
    (∀ x ∈ mixedExchanges, x.Answered (.ok ⟨10, 20⟩)) ∧
    (∀ x ∈ mixedExchanges.drop 3, x.IsQuiet) ∧
    ∃ n last exchanges, ∀ fuel, n ≤ fuel → (new ⟨0⟩ ⟨0, 10⟩ (.ok ⟨10, 20⟩)).serve fuel
      (mixedExchanges.map Exchange.text) = some (last, exchanges) := by
  obtain ⟨hall, hexists⟩ :=
    serve_answered ⟨0⟩ ⟨0, 10⟩ (.ok ⟨10, 20⟩) (mixedExchanges.map Exchange.text)
  obtain ⟨last, hserve⟩ := serve_mixedExchanges
  obtain ⟨-, -, hanswered, hquiet⟩ := hall 20 last mixedExchanges hserve
  refine ⟨⟨last, hserve⟩, hanswered, ?_, hexists endsRun_mixedExchanges⟩
  refine hquiet (mixedExchanges.take 2) ⟨Command.continueExecution.encode, [.programEnd]⟩
    (mixedExchanges.drop 3) [] rfl ⟨_, Command.decode_encode _, rfl⟩ ?_ ?_
  · simp [Exchange.IsQuiet, Event.isLine]
  · simp only [mixedExchanges, List.drop_succ_cons, List.drop_zero, List.forall_mem_cons]
    refine ⟨?_, ?_, by rintro _ ⟨⟩⟩
    · rintro ⟨source, hdecode⟩
      cases hdecode
    · rintro ⟨source, hdecode⟩
      rw [Command.decode_encode] at hdecode
      cases hdecode

end Session

end Linewise
