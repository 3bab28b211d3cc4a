import Linewise.Proofs.Machine.Stretch
import Linewise.Proofs.Wire.Message
import Linewise.Session.Worker

/-!
# Answers of a session

A session that somebody listens to answers every request to start or to continue a run with one
event, which stands between texts (`Session.receive_request`). It answers nothing else
(`Session.receive_load`). If it could do what it was asked (`Session.Accepts`), the answer shows
what state it is in afterwards (`Session.Shows`).
-/

namespace Linewise

open Wire (Command Event)

/-- The command asks for a response. -/
def Wire.Command.isRequest : Command → Bool
  | .startExecution _ | .continueExecution => true
  | .load => false

namespace Session

/-- What loading the interpreter has given, or is going to give. -/
def interpreter (session : Session) : Except LoadFault Interpreter :=
  session.loaded.getD session.loader

/-- One session is another one at a later time. -/
structure Continues (before after : Session) : Prop where
  id : after.id = before.id
  limits : after.limits = before.limits
  isOpen : after.isOpen = before.isOpen
  interpreter : after.interpreter = before.interpreter

/-- The session can do what it is asked. -/
def Accepts (session : Session) : Command → Prop
  | .load => True
  | .startExecution _ => ∃ interpreter, session.interpreter = .ok interpreter
  | .continueExecution => session.state.canContinue = true ∧ session.execution.isSome = true

/-- The session is in the state that a response tells of. -/
inductive Shows (session : Session) : Event → Prop
  | line (line : Line) (scope : Bindings String) (hstate : session.state = .paused line)
      (he : session.execution.isSome = true) : Shows session (.lineExecuted line scope)
  | finished (hstate : session.state = .finished) : Shows session .programEnd
  | fault (fault : Fault) (hstate : session.state = .errored) : Shows session (.error fault.text)
  | traceFailure (failure : TraceFailure) (hstate : session.state = .errored) :
      Shows session (.error failure.text)

variable {session : Session} {events : Array Event} {reaction : Reaction} {response : Event}
  {fuel : Nat}

theorem Continues.refl (session : Session) : session.Continues session := ⟨rfl, rfl, rfl, rfl⟩

theorem Continues.trans {a b c : Session} (hab : a.Continues b) (hbc : b.Continues c) :
    a.Continues c :=
  ⟨hbc.id.trans hab.id, hbc.limits.trans hab.limits, hbc.isOpen.trans hab.isOpen,
    hbc.interpreter.trans hab.interpreter⟩

theorem Shows.isResponse (h : session.Shows response) : response.isResponse = true := by
  cases h <;> rfl

/-- Some texts as events. -/
def outputs (texts : List String) : List Event := texts.map .output

theorem outputs_append (texts rest : List String) :
    outputs (texts ++ rest) = outputs texts ++ outputs rest :=
  List.map_append

/-- Texts answer nothing. -/
theorem isResponse_of_mem_outputs {texts : List String} {event : Event}
    (h : event ∈ outputs texts) : event.isResponse = false := by
  obtain ⟨text, -, rfl⟩ := List.mem_map.1 h
  rfl

theorem filter_outputs (texts : List String) : (outputs texts).filter Event.isResponse = [] :=
  List.filter_eq_nil_iff.2 fun _ hmem => Bool.eq_false_iff.1 (isResponse_of_mem_outputs hmem)

/-- A session that is listened to tells what it has to tell. -/
theorem tell_eq (hopen : session.isOpen = true) (event : Event) :
    session.tell events event = events.push event :=
  if_pos hopen

theorem reply_eq (hopen : session.isOpen = true) (event : Event) :
    session.reply events event = ⟨session, events.push event, .ok ()⟩ := by
  rw [reply, tell_eq hopen, if_pos hopen]

/-- The response of a session whose run is over. -/
theorem reply_ended (hopen : session.isOpen = true) (state : SessionState) (event : Event) :
    { session with execution := none, state }.reply events event =
      ⟨{ session with execution := none, state }, events.push event, .ok ()⟩ := by
  have hended : { session with execution := none, state }.isOpen = true := hopen
  rw [reply_eq hended]

/-- Whoever listens hears the texts that are printed. -/
theorem hear_watcher (hopen : session.isOpen = true) (texts : List String) :
    (session.watcher.hear events texts).toList = events.toList ++ outputs texts := by
  induction texts generalizing events with
  | nil => exact (List.append_nil _).symm
  | cons text texts ih =>
    have htell : session.watcher.onPrint text events = events.push (.output text) :=
      tell_eq hopen _
    rw [Watcher.hear_cons, htell, ih, Array.toList_push, List.append_assoc]
    rfl

/-- Whoever listens hears of a line with its variables. -/
theorem onLine_watcher {view : FrameView} {told : Array Event} (hopen : session.isOpen = true)
    (h : session.watcher.onLine view events = .ok told) :
    ∃ scope, told = events.push (.lineExecuted view.line scope) := by
  rw [watcher] at h
  cases hscope : Snapshot.capture session.limits view with
  | error failure =>
    simp only [hscope] at h
    cases h
  | ok scope =>
    simp only [hscope, hopen, if_true] at h
    cases h
    exact ⟨scope, rfl⟩

/-- What is left to tell of a request, in which the session answers it: texts, a response that
    shows the state of the session, and texts. -/
structure Answers (session : Session) (events : Array Event) (reaction : Reaction) : Prop where
  continues : session.Continues reaction.session
  result : reaction.result = .ok ()
  told : ∃ texts response rest, reaction.session.Shows response ∧
    reaction.events.toList = events.toList ++ (outputs texts ++ response :: outputs rest)

/-- Texts that a session has told before it answers belong to its answer. -/
theorem Answers.after {before : Session} {told : Array Event} {texts : List String}
    (hbefore : before.Continues session) (htold : told.toList = events.toList ++ outputs texts)
    (h : session.Answers told reaction) : before.Answers events reaction := by
  obtain ⟨more, response, rest, hshows, hevents⟩ := h.told
  refine ⟨hbefore.trans h.continues, h.result, texts ++ more, response, rest, hshows, ?_⟩
  rw [hevents, htold, outputs_append, List.append_assoc, List.append_assoc]

/-- A run that cannot be reported is answered with the failure, and goes on as texts. -/
theorem finishUntraced_answers {execution : Execution} {failure : TraceFailure}
    (hopen : session.isOpen = true) (ht : execution.traced = false)
    (h : session.finishUntraced fuel execution (session.tell events (.error failure.text)) =
      some reaction) : session.Answers events reaction := by
  rw [finishUntraced, tell_eq hopen] at h
  cases hfinish : execution.finish session.watcher fuel fuel
    (events.push (.error failure.text)) with
  | none => rw [hfinish] at h; cases h
  | some result =>
    obtain ⟨outcome, e', told⟩ := result
    obtain ⟨hover, texts, rfl⟩ := Execution.told_of_finish ht hfinish
    rw [hfinish] at h
    rcases hover with rfl | ⟨fault, rfl⟩
    · cases h
      refine ⟨⟨rfl, rfl, rfl, rfl⟩, rfl, [], _, texts, .traceFailure failure rfl, ?_⟩
      rw [hear_watcher hopen, Array.toList_push, List.append_assoc]
      rfl
    · -- The fault at the end is told as a text, for the failure was the response already.
      dsimp only at h
      rw [reply_ended hopen] at h
      cases h
      refine ⟨⟨rfl, rfl, rfl, rfl⟩, rfl, [], _, texts ++ [fault.text],
        .traceFailure failure rfl, ?_⟩
      rw [Array.toList_push, hear_watcher hopen, Array.toList_push, outputs_append]
      simp [outputs]

theorem fail_answers (hopen : session.isOpen = true) (fault : Fault) :
    session.Answers events (session.fail events fault) := by
  rw [fail, reply_ended hopen]
  exact ⟨⟨rfl, rfl, rfl, rfl⟩, rfl, [], _, [], .fault fault rfl, Array.toList_push⟩

/-- A session that goes on with its run answers. -/
theorem advance_answers (hopen : session.isOpen = true) (he : session.execution.isSome = true)
    (h : session.advance fuel events = some reaction) : session.Answers events reaction := by
  obtain ⟨execution, he⟩ := Option.isSome_iff_exists.1 he
  rw [advance, he] at h
  dsimp only at h
  cases hresume : execution.resume session.watcher fuel events with
  | none => rw [hresume] at h; cases h
  | some result =>
    obtain ⟨outcome, e', told⟩ := result
    -- The session while the run is under way, which has told nothing but texts so far.
    have hwas : session.Continues { session with execution := some e' } := ⟨rfl, rfl, rfl, rfl⟩
    have hwasOpen : { session with execution := some e' }.isOpen = true := hopen
    rw [hresume] at h
    cases Execution.told_of_resume hresume with
    | paused texts view hline hview =>
      subst hline
      obtain ⟨scope, rfl⟩ := onLine_watcher hopen hview
      cases h
      refine ⟨⟨rfl, rfl, rfl, rfl⟩, rfl, texts, _, [], .line view.line scope rfl rfl, ?_⟩
      rw [Array.toList_push, hear_watcher hopen, List.append_assoc]
      rfl
    | traceFailed texts hview ht =>
      dsimp only at h
      rw [if_pos hopen] at h
      exact .after hwas (hear_watcher hopen texts) (finishUntraced_answers hwasOpen ht h)
    | ended texts houtcome =>
      rcases houtcome with rfl | ⟨fault, rfl⟩
      · dsimp only at h
        rw [reply_ended hopen] at h
        cases h
        refine ⟨⟨rfl, rfl, rfl, rfl⟩, rfl, texts, _, [], .finished rfl, ?_⟩
        rw [Array.toList_push, hear_watcher hopen, List.append_assoc]
        rfl
      · cases h
        exact .after hwas (hear_watcher hopen texts) (fail_answers hwasOpen fault)

/-- Loading the interpreter tells texts alone, and gives what it is going to give from then on. -/
theorem load_eq (session : Session) (events : Array Event) (hopen : session.isOpen = true) :
    ∃ after told texts,
    session.load events = (session.interpreter, after, told) ∧ session.Continues after ∧
      after.state = session.state ∧ after.execution = session.execution ∧
        told.toList = events.toList ++ outputs texts := by
  rw [load]
  cases hloaded : session.loaded with
  | some loaded =>
    have hinterpreter : session.interpreter = loaded := by rw [interpreter, hloaded]; rfl
    rw [hinterpreter]
    exact ⟨session, events, [], rfl, .refl session, rfl, rfl, (List.append_nil _).symm⟩
  | none =>
    have hinterpreter : session.interpreter = session.loader := by rw [interpreter, hloaded]; rfl
    rw [hinterpreter]
    cases hloader : session.loader with
    | ok loaded =>
      refine ⟨_, _, [loadingText, loadedText], rfl, ⟨rfl, rfl, rfl, ?_⟩, rfl, rfl, ?_⟩
      · rw [hinterpreter, hloader]; rfl
      · simp [tell_eq hopen, outputs]
    | error fault =>
      refine ⟨_, _, [loadingText], rfl, ⟨rfl, rfl, rfl, ?_⟩, rfl, rfl, ?_⟩
      · rw [hinterpreter, hloader]; rfl
      · simp [tell_eq hopen, outputs]

/-- A session that is asked to start a run discards the one that it has and tells texts alone
    before anything else. It goes on with the run of the script, unless it has no interpreter or
    refuses the script. -/
theorem exists_start_eq (hopen : session.isOpen = true) (source : String) :
    ∃ loaded told texts, session.Continues loaded ∧ loaded.state = .idle ∧
      loaded.execution = none ∧ told.toList = outputs texts ∧
      ∀ fuel, session.start fuel source = match session.interpreter with
        | .error fault => some ⟨loaded, told, .error (.load fault)⟩
        | .ok interpreter => match interpreter.compile source with
          | .error fault => some (loaded.fail told fault)
          | .ok code => { loaded with
              execution := some (.start code interpreter.maxCallDepth true) }.advance fuel told := by
  have hfresh : session.Continues { session with execution := none, state := .idle } :=
    ⟨rfl, rfl, rfl, rfl⟩
  obtain ⟨loaded, told, texts, hload, hloaded, hstate, hexecution, htold⟩ :=
    load_eq { session with execution := none, state := .idle } #[] hopen
  refine ⟨loaded, told, texts, hfresh.trans hloaded, hstate, hexecution, htold, fun fuel => ?_⟩
  rw [hfresh.interpreter] at hload
  rw [start, hload]
  cases session.interpreter with
  | error fault => rfl
  | ok interpreter =>
    simp only [Interpreter.prepare]
    cases interpreter.compile source <;> rfl

/-- A session with an interpreter answers the request to start a run. -/
theorem start_answers {source : String} {loaded : Interpreter} (hopen : session.isOpen = true)
    (hloaded : session.interpreter = .ok loaded)
    (h : session.start fuel source = some reaction) : session.Answers #[] reaction := by
  obtain ⟨after, told, texts, hcontinues, -, -, htold, hstart⟩ := exists_start_eq hopen source
  have hafterOpen := hcontinues.isOpen.trans hopen
  simp only [hstart, hloaded] at h
  cases hcompile : loaded.compile source with
  | error fault =>
    simp only [hcompile] at h
    cases h
    exact .after hcontinues htold (fail_answers hafterOpen fault)
  | ok code =>
    simp only [hcompile] at h
    have hrun : session.Continues { after with
        execution := some (.start code loaded.maxCallDepth true) } :=
      hcontinues.trans ⟨rfl, rfl, rfl, rfl⟩
    exact .after hrun htold (advance_answers hafterOpen rfl h)

/-- A session without an interpreter refuses to start a run. -/
theorem start_refuses {source : String} {fault : LoadFault} (hopen : session.isOpen = true)
    (hfault : session.interpreter = .error fault)
    (h : session.start fuel source = some reaction) :
    session.Continues reaction.session ∧ reaction.result = .error (.load fault) ∧
      ∃ texts, reaction.events.toList = outputs texts := by
  obtain ⟨after, told, texts, hcontinues, -, -, htold, hstart⟩ := exists_start_eq hopen source
  simp only [hstart, hfault] at h
  cases h
  exact ⟨hcontinues, rfl, texts, htold⟩

/-! ## Commands -/

/-- The event that tells what loading the interpreter gives. -/
def announcement : Except LoadFault Interpreter → Event
  | .ok _ => .ready
  | .error fault => .loadFailed fault.message

/-- A session that is asked to load its interpreter tells texts, and then whether it has one. -/
theorem exists_initiate_eq (hopen : session.isOpen = true) :
    ∃ after told texts, session.initiate = ⟨after, told, .ok ()⟩ ∧ session.Continues after ∧
      after.state = session.state ∧ after.execution = session.execution ∧
      told.toList = outputs texts ++ [announcement session.interpreter] := by
  obtain ⟨after, told, texts, hload, hcontinues, hstate, hexecution, htold⟩ :=
    session.load_eq #[] hopen
  refine ⟨after, told.push (announcement session.interpreter), texts, ?_, hcontinues, hstate,
    hexecution, ?_⟩
  · rw [initiate, hload]
    have hafterOpen := hcontinues.isOpen.trans hopen
    cases session.interpreter <;> exact reply_eq hafterOpen _
  · rw [Array.toList_push, htold]
    rfl

/-- Loading the interpreter answers no request and leaves the run as it is. That the session is
    ready is told only if it has an interpreter. -/
theorem receive_load {after : Session} (hopen : session.isOpen = true)
    (h : session.receive fuel Command.load.encode = some (after, events)) :
    session.Continues after ∧ after.state = session.state ∧ after.execution = session.execution ∧
      ∃ texts event, events.toList = outputs texts ++ [event] ∧
        (event = .ready ∧ (∃ loaded, session.interpreter = .ok loaded) ∨
          ∃ message, event = .loadFailed message) := by
  obtain ⟨loaded, told, texts, hinitiate, hcontinues, hstate, hexecution, htold⟩ :=
    exists_initiate_eq hopen
  rw [receive, Command.decode_encode] at h
  simp only [handle, hinitiate] at h
  cases h
  refine ⟨hcontinues, hstate, hexecution, texts, _, htold, ?_⟩
  cases session.interpreter with
  | ok interpreter => exact .inl ⟨rfl, interpreter, rfl⟩
  | error fault => exact .inr ⟨fault.message, rfl⟩

/-- What is left when a session cannot do what it is asked: texts, and an error to report. -/
structure Refuses (session : Session) (reaction : Reaction) : Prop where
  continues : session.Continues reaction.session
  result : ∃ error, reaction.result = .error error
  told : ∃ texts, reaction.events.toList = outputs texts

/-- A request is answered, unless the session could not do it and says so. -/
theorem handle_request {command : Command} (hopen : session.isOpen = true)
    (hrequest : command.isRequest = true) (h : session.handle fuel command = some reaction) :
    session.Answers #[] reaction ∨ ¬session.Accepts command ∧ session.Refuses reaction := by
  cases command with
  | load => cases hrequest
  | startExecution source =>
    -- A start needs nothing but an interpreter.
    cases hinterpreter : session.interpreter with
    | ok loaded => exact .inl (start_answers hopen hinterpreter h)
    | error fault =>
      obtain ⟨hcontinues, hresult, htold⟩ := start_refuses hopen hinterpreter h
      refine .inr ⟨?_, hcontinues, ⟨_, hresult⟩, htold⟩
      rintro ⟨loaded, hloaded⟩
      rw [hinterpreter] at hloaded
      cases hloaded
  | continueExecution =>
    rw [handle, proceed] at h
    by_cases hstate : session.state.canContinue = true
    · rw [if_pos hstate] at h
      -- Without a run to go on with, the session refuses in any state.
      cases hexecution : session.execution with
      | some execution => exact .inl (advance_answers hopen (by rw [hexecution]; rfl) h)
      | none =>
        rw [advance, hexecution] at h
        cases h
        refine .inr ⟨fun haccepts => ?_, .refl session, ⟨_, rfl⟩, [], rfl⟩
        have hsome := haccepts.2
        rw [hexecution] at hsome
        cases hsome
    · rw [if_neg hstate] at h
      cases h
      exact .inr ⟨fun haccepts => hstate haccepts.1, .refl session, ⟨_, rfl⟩, [], rfl⟩

/-- A request is answered with one response, which shows the state of the session if it could do
    what it was asked. -/
theorem receive_request {command : Command} {after : Session} (hopen : session.isOpen = true)
    (hrequest : command.isRequest = true)
    (h : session.receive fuel command.encode = some (after, events)) :
    session.Continues after ∧ ∃ texts response rest, response.isResponse = true ∧
      events.toList = outputs texts ++ response :: outputs rest ∧
        (session.Accepts command → after.Shows response) := by
  rw [receive, Command.decode_encode] at h
  dsimp only at h
  cases hhandle : session.handle fuel command with
  | none => rw [hhandle] at h; cases h
  | some reaction =>
    rw [hhandle] at h
    dsimp only at h
    rcases handle_request hopen hrequest hhandle with hanswers |
      ⟨hrefused, hcontinues, ⟨error, hresult⟩, texts, htold⟩
    · obtain ⟨texts, response, rest, hshows, htold⟩ := hanswers.told
      rw [hanswers.result] at h
      cases h
      exact ⟨hanswers.continues, texts, response, rest, hshows.isResponse, htold, fun _ => hshows⟩
    · -- The worker reports a refusal itself, so even this request has its response.
      rw [hresult] at h
      cases h
      refine ⟨hcontinues, texts, .error error.message, [], rfl, ?_, fun h => absurd h hrefused⟩
      rw [report, tell_eq (hcontinues.isOpen.trans hopen), Array.toList_push, htold]
      rfl

end Session

end Linewise
