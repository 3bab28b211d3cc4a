import Linewise.Proofs.Session.Consistency
import Linewise.Proofs.Session.History

/-!
# Snapshots within their limits

A session gets its interpreter and the limits of its snapshots from one configuration. Whatever it
is asked to do then and whenever its listener leaves, each line that it tells of comes with the
texts of all values in the innermost scope of the run, one for each name, and neither are there
more of them than the configuration allows nor is any of them longer (`Session.Portrays`).

* A text that is too long keeps its beginning, and gets three dots for the rest. It would be too
  long all the same if there were not even room for the dots (`Snapshot.truncate_abridges`).
* A configuration that leaves so little room is refused when the interpreter is loaded, and a
  session has no run without an interpreter (`Session.IsFounded`).
* An operation tells of at most one line, which is the line that the session is paused on
  afterwards (`Audience.Answers`).
-/

namespace Linewise

open Wire (Command Event SessionId)

open Session (Reaction)

/-! ## Texts -/

namespace Snapshot

/-- A text stands for a whole one in at most `most` characters: it is the whole one if that is
    possible, and otherwise the beginning of it and an ellipsis. -/
structure Abridges (most : Nat) (whole text : String) : Prop where
  length_le : text.length ≤ most
  eq_whole : whole.length ≤ most → text = whole
  eq_beginning : most < whole.length →
    text = String.ofList (whole.toList.take (most - 3)) ++ "..."

/-- A text is cut as `Abridges` says, if there is room for the ellipsis. -/
theorem truncate_abridges {most : Nat} (h : 3 ≤ most) (whole : String) :
    Abridges most whole (truncate most whole) := by
  have hlength : whole.toList.length = whole.length := String.length_toList
  rw [truncate, hlength]
  split
  next hle => exact ⟨hle, fun _ => rfl, fun hlt => absurd hle (Nat.not_le.2 hlt)⟩
  next hlt =>
    refine ⟨?_, fun hle => absurd hle hlt, fun _ => ?_⟩
    · rw [String.length_ofList, List.length_append, List.length_take, hlength]
      have hellipsis : ellipsis.length = 3 := rfl
      omega
    · rw [String.ofList_append]
      rfl

/-- Limits that are accepted leave room for an ellipsis. -/
theorem lt_maxValueLen_of_load {limits : Limits} {interpreter : Interpreter}
    (h : Interpreter.load limits = .ok interpreter) : 3 < limits.maxValueLen := by
  rw [Interpreter.load, Limits.violation?] at h
  grind

end Snapshot

/-! ## Stretches -/

namespace Execution

variable {σ : Type} {w : Watcher σ} {s s' : σ} {e e' : Execution} {outcome : Outcome} {fuel : Nat}

/-- A stretch tells some texts and, if it ends at a line, what can be seen of the run there. -/
inductive Sees (w : Watcher σ) (s : σ) : Outcome → Execution → σ → Prop
  | line {e : Execution} {s' : σ} {line : Line} (texts : List String) (view : FrameView)
      (hview : e.view? = some view) (h : w.onLine view (w.hear s texts) = .ok s') :
      Sees w s (.paused line) e s'
  | nothing {outcome : Outcome} {e : Execution} (texts : List String)
      (houtcome : ∀ line, outcome ≠ .paused line) : Sees w s outcome e (w.hear s texts)

theorem sees_ended {e : Execution} (texts : List String)
    (houtcome : outcome = .finished ∨ ∃ fault, outcome = .faulted fault) :
    Sees w s outcome e (w.hear s texts) := by
  refine .nothing texts fun line hpaused => ?_
  rcases houtcome with rfl | ⟨fault, rfl⟩ <;> cases hpaused

/-- A stretch that ends at a line has told what can be seen of the run there. -/
theorem sees_of_resume (hresume : e.resume w fuel s = some (outcome, e', s')) :
    Sees w s outcome e' s' := by
  cases hterminated : e.isTerminated with
  | true =>
    obtain ⟨outcome', houtcome, hagain⟩ := resume_of_isTerminated hterminated w s
    rw [hagain] at hresume
    cases hresume
    exact sees_ended [] houtcome
  | false =>
    cases stretch_of_resume hterminated hresume with
    | paused _ _ _ hstep hline =>
      exact .line _ _ (Machine.view?_of_atLine hstep _ _) hline
    | traceFailed => exact .nothing _ nofun
    | ended hends => exact sees_ended _ hends.outcome_eq

end Execution

/-! ## Operations -/

namespace Session

variable {session : Session}

/-- Loading has given what the loader gives, and there is no run without an interpreter. -/
structure IsFounded (session : Session) : Prop where
  loaded : ∀ loaded, session.loaded = some loaded → loaded = session.loader
  interpreter : session.execution.isSome = true →
    ∃ interpreter, session.loader = .ok interpreter

/-- A new session has no run, and so needs no interpreter. -/
theorem isFounded_new (id : SessionId) (limits : SnapshotLimits)
    (loader : Except LoadFault Interpreter) : (new id limits loader).IsFounded :=
  ⟨nofun, nofun⟩

end Session

/-- Some events tell of no line. -/
def Lineless (events : Array Event) : Prop := ∀ event ∈ events, event.line? = none

namespace Lineless

variable {events : Array Event} {event : Event}

theorem empty : Lineless #[] := fun _ hmem => absurd hmem (Array.not_mem_empty _)

theorem push (h : Lineless events) (hevent : event.line? = none) :
    Lineless (events.push event) := by
  intro other hmem
  rcases Array.mem_push.1 hmem with hmem | rfl
  · exact h other hmem
  · exact hevent

theorem tell (h : Lineless events) (session : Session) (hevent : event.line? = none) :
    Lineless (session.tell events event) := by
  rw [Session.tell]
  split
  · exact h.push hevent
  · exact h

theorem hear (h : Lineless events) (audience : Audience) (session : Session)
    (texts : List String) : Lineless ((audience.watcher session).hear events texts) := by
  induction texts generalizing events with
  | nil => exact h
  | cons text texts ih => exact ih (h.tell _ rfl)

end Lineless

namespace Audience

variable {audience : Audience} {before session : Session} {events : Array Event}
  {execution : Execution} {reaction : Reaction} {operation : Operation} {command : Command}
  {fuel : Nat}

/-- What an operation leaves as it was, and what it tells of a line: the texts of the variables that
    the run is seen with afterwards. -/
structure Answers (before : Session) (reaction : Reaction) : Prop where
  limits : reaction.session.limits = before.limits
  loader : reaction.session.loader = before.loader
  founded : reaction.session.IsFounded
  lines : ∀ event ∈ reaction.events, ∀ line scope, event.line? = some (line, scope) →
    ∃ e view, reaction.session.execution = some e ∧ e.view? = some view ∧ view.line = line ∧
      Snapshot.Fits before.limits view ∧ scope = Snapshot.scope before.limits view

/-- An operation that tells of no line. -/
theorem answers_of_lineless (hlimits : reaction.session.limits = before.limits)
    (hloader : reaction.session.loader = before.loader) (hfounded : reaction.session.IsFounded)
    (hlines : Lineless reaction.events) : Answers before reaction := by
  refine ⟨hlimits, hloader, hfounded, fun event hmem line scope hline => ?_⟩
  rw [hlines event hmem] at hline
  cases hline

/-- Loading gives what the loader gives, leaves the limits as they are and tells of no line. -/
theorem load_keeps (audience : Audience) (h : session.IsFounded) (hevents : Lineless events) :
    (audience.load session events).1 = session.loader ∧
      (audience.load session events).2.1.limits = session.limits ∧
      (audience.load session events).2.1.loader = session.loader ∧
      (audience.load session events).2.1.IsFounded ∧
      Lineless (audience.load session events).2.2 := by
  rw [load]
  split
  next loaded hloaded => exact ⟨h.loaded loaded hloaded, rfl, rfl, h, hevents⟩
  next =>
    -- It has not been tried before, so this is the attempt that is remembered.
    refine ⟨rfl, rfl, rfl,
      ⟨fun loaded hloaded => (Option.some.inj hloaded).symm, h.interpreter⟩, ?_⟩
    dsimp only
    have hloading := hevents.tell (session.facing audience events)
      (rfl : (Event.output Session.loadingText).line? = none)
    split
    · exact hloading.tell _ rfl
    · exact hloading

/-- A line that is told fits into a snapshot. -/
theorem onLine_watcher_eq {view : FrameView} {told : Array Event}
    (h : (audience.watcher session).onLine view events = .ok told) :
    Snapshot.Fits session.limits view ∧
      told = events.push (Session.lineEvent session.limits view) := by
  change (session.facing audience events).watcher.onLine view events = .ok told at h
  rw [Session.watcher] at h
  dsimp only at h
  cases hcapture : Snapshot.capture (session.facing audience events).limits view with
  | error failure =>
    rw [hcapture] at h
    cases h
  | ok scope =>
    have hfits : Snapshot.Fits session.limits view := Snapshot.fits_of_capture hcapture
    obtain rfl := Except.ok.inj (hcapture.symm.trans (Snapshot.capture_of_fits hfits))
    rw [hcapture] at h
    change (if _ then _ else _) = _ at h
    split at h
    · cases h
      exact ⟨hfits, rfl⟩
    · cases h

/-- What follows a line that could not be reported is told as texts. -/
theorem finishUntraced_answers (h : session.IsFounded)
    (hloader : ∃ interpreter, session.loader = .ok interpreter) (hevents : Lineless events)
    (htraced : execution.traced = false)
    (hfinish : audience.finishUntraced fuel session execution events = some reaction) :
    Answers session reaction := by
  rw [finishUntraced] at hfinish
  split at hfinish
  · cases hfinish
  next outcome last told hlast =>
    obtain ⟨-, texts, rfl⟩ := Execution.told_of_finish htraced hlast
    have htold := hevents.hear audience session texts
    dsimp only at hfinish
    split at hfinish
    · rw [← Option.some.inj hfinish]
      split
      · exact answers_of_lineless rfl rfl ⟨h.loaded, fun _ => hloader⟩ (htold.tell _ rfl)
      · exact answers_of_lineless rfl rfl ⟨h.loaded, fun _ => hloader⟩ (htold.tell _ rfl)
    · rw [← Option.some.inj hfinish]
      exact answers_of_lineless rfl rfl ⟨h.loaded, fun _ => hloader⟩ htold

/-- A stretch tells of a line only when it has reached one, with the variables that the run is seen
    with there. -/
theorem advance_answers (h : session.IsFounded) (hevents : Lineless events)
    (hadvance : audience.advance fuel session events = some reaction) :
    Answers session reaction := by
  rw [advance] at hadvance
  split at hadvance
  · cases hadvance
    exact answers_of_lineless rfl rfl h hevents
  next execution hexecution =>
    have hloader := h.interpreter (hexecution ▸ rfl)
    have hfounded : ∀ execution state isOpen,
        { session with execution, state, isOpen }.IsFounded :=
      fun _ _ _ => ⟨h.loaded, fun _ => hloader⟩
    -- A session with a run is founded however the run goes on.
    split at hadvance
    · cases hadvance
    next outcome last told hresume =>
      cases Execution.sees_of_resume hresume with
      | @line _ _ line texts view hview hline =>
        cases hadvance
        obtain ⟨hfits, rfl⟩ := onLine_watcher_eq hline
        refine ⟨rfl, rfl, hfounded _ _ _, fun event hmem line scope hevent => ?_⟩
        rcases Array.mem_push.1 hmem with hmem | rfl
        · rw [hevents.hear audience session texts event hmem] at hevent
          cases hevent
        · cases hevent
          exact ⟨_, view, rfl, hview, rfl, hfits, rfl⟩
      | nothing texts houtcome =>
        have htold := hevents.hear audience session texts
        rcases outcome with line | _ | fault | failure
        · exact absurd rfl (houtcome line)
        · cases hadvance
          exact answers_of_lineless rfl rfl (hfounded _ _ _) (htold.tell _ rfl)
        · cases hadvance
          exact answers_of_lineless rfl rfl (hfounded _ _ _) (htold.tell _ rfl)
        · dsimp only at hadvance
          split at hadvance
          -- What is left of the run is not traced any more, so it tells of no line.
          · have hloose := Execution.isLoose_of_resume hresume
            have hanswers := finishUntraced_answers (hfounded _ _ _) hloader
              (htold.tell _ rfl) hloose.traced hadvance
            exact ⟨hanswers.limits, hanswers.loader, hanswers.founded, hanswers.lines⟩
          · cases hadvance
            exact answers_of_lineless rfl rfl (hfounded _ _ _) (htold.tell _ rfl)

/-- A start tells of a line as the first stretch of the new run does; what it has told before tells
    of none. -/
theorem start_answers {source : String} (h : session.IsFounded)
    (hstart : audience.start fuel session source = some reaction) : Answers session reaction := by
  -- The session forgets its last run before it loads, so it is founded whatever the load comes to.
  have hfresh : { session with execution := none, state := .idle }.IsFounded :=
    ⟨h.loaded, fun hsome => absurd hsome Bool.false_ne_true⟩
  have hload := load_keeps audience hfresh .empty
  rw [start] at hstart
  generalize audience.load _ #[] = loaded at hload hstart
  obtain ⟨result, after, told⟩ := loaded
  obtain ⟨hresult, hlimits, hloader, hfounded, htold⟩ := hload
  dsimp only at hresult hlimits hloader hfounded htold hstart
  cases result with
  | error fault =>
    cases hstart
    exact answers_of_lineless hlimits hloader hfounded htold
  | ok interpreter =>
    have hok : after.loader = .ok interpreter := hloader.trans hresult.symm
    dsimp only at hstart
    split at hstart
    next execution _ =>
      have hstarted : { after with execution := some execution }.IsFounded :=
        ⟨hfounded.loaded, fun _ => ⟨interpreter, hok⟩⟩
      have hanswers := advance_answers hstarted htold hstart
      refine ⟨hanswers.limits.trans hlimits, hanswers.loader.trans hloader, hanswers.founded, ?_⟩
      rw [← hlimits]
      exact hanswers.lines
    · cases hstart
      exact answers_of_lineless hlimits hloader
        ⟨hfounded.loaded, fun hsome => absurd hsome Bool.false_ne_true⟩ (htold.tell _ rfl)

/-- A command tells of a line only as the stretch does that it asks for. -/
theorem handle_answers (h : session.IsFounded)
    (hhandle : audience.handle fuel session command = some reaction) :
    Answers session reaction := by
  cases command with
  | load =>
    have hload := load_keeps audience h .empty
    rw [handle, initiate] at hhandle
    generalize audience.load session #[] = loaded at hload hhandle
    obtain ⟨result, after, told⟩ := loaded
    obtain ⟨-, hlimits, hloader, hfounded, htold⟩ := hload
    cases result with
    | error fault =>
      cases hhandle
      exact answers_of_lineless hlimits hloader ⟨hfounded.loaded, hfounded.interpreter⟩
        (htold.tell _ rfl)
    | ok interpreter =>
      cases hhandle
      exact answers_of_lineless hlimits hloader ⟨hfounded.loaded, hfounded.interpreter⟩
        (htold.tell _ rfl)
  | startExecution source => exact start_answers h hhandle
  | continueExecution =>
    rw [handle, proceed] at hhandle
    split at hhandle
    · exact advance_answers h .empty hhandle
    · cases hhandle
      exact answers_of_lineless rfl rfl h .empty

/-- To report an error is to tell of no line. -/
theorem Answers.report (h : Answers before reaction) :
    Answers before (audience.report reaction) := by
  refine ⟨h.limits, h.loader, h.founded, fun event hmem line scope hline => ?_⟩
  rw [Audience.report] at hmem
  split at hmem
  · exact h.lines event hmem line scope hline
  · rw [Session.report, Session.tell] at hmem
    split at hmem
    · rcases Array.mem_push.1 hmem with hmem | rfl
      · exact h.lines event hmem line scope hline
      · cases hline
    · exact h.lines event hmem line scope hline

/-- Whatever a session is asked to do or sent, what it tells of a line is what the run is seen with
    afterwards. -/
theorem operate_answers (h : session.IsFounded)
    (hoperate : audience.operate fuel session operation = some reaction) :
    Answers session reaction := by
  rcases operation with command | text
  · exact handle_answers h hoperate
  · rw [operate] at hoperate
    split at hoperate
    next complaint _ =>
      have hlineless : Answers session ⟨session, #[], .error (.malformed complaint)⟩ :=
        answers_of_lineless rfl rfl h .empty
      cases hoperate
      exact hlineless.report
    · obtain ⟨unreported, hhandle, rfl⟩ := Option.map_eq_some_iff.1 hoperate
      exact (handle_answers h hhandle).report

end Audience

/-! ## All operations -/

namespace Session

variable {session : Session} {audience : Audience} {operation : Operation} {reaction : Reaction}
  {fuel : Nat}

/-- Every session is founded. -/
theorem Lives.isFounded (h : Lives session) : session.IsFounded := by
  induction h with
  | new id limits loader => exact isFounded_new id limits loader
  | close _ ih => exact ⟨ih.loaded, ih.interpreter⟩
  | operate _ _ hoperate ih =>
    have hfounded := (Audience.operate_answers ih hoperate).founded
    exact ⟨hfounded.loaded, hfounded.interpreter⟩

/-- One text for each value in the innermost scope of the run, under its name. -/
def Portrays (most : Nat) (view : FrameView) (scope : Bindings String) : Prop :=
  List.Forall₂ (fun binding entry => binding.1 = entry.1 ∧
    Snapshot.Abridges most binding.2.display entry.2) view.bindings.entries scope.entries

/-- A captured scope portrays the innermost frame, if there is room for the ellipsis. -/
theorem portrays_scope {limits : SnapshotLimits} (h : 3 ≤ limits.maxValueLen) (view : FrameView) :
    Portrays limits.maxValueLen view (Snapshot.scope limits view) := by
  refine List.forall₂_map_right_iff.2 (List.forall₂_same.2 fun binding _ => ⟨rfl, ?_⟩)
  exact Snapshot.truncate_abridges h _

/-- Whatever has been asked of a session that has its loader and its limits from one configuration,
    each line that an operation tells of is the line that the run is seen on afterwards. It comes
    with one text for each value in the innermost scope, under its name, and with nothing else.
    There are no more texts and none is longer than the configuration allows. A text that is short
    enough is that of the value, and another one ends in three dots where it was cut. -/
theorem Lives.portrays {limits : Limits} {line : Line} {scope : Bindings String}
    (h : Lives session) (hlimits : session.limits = .ofLimits limits)
    (hloader : session.loader = Interpreter.load limits)
    (hoperate : audience.operate fuel session operation = some reaction)
    (hline : .lineExecuted line scope ∈ reaction.events) :
    ∃ e view, reaction.session.execution = some e ∧ e.view? = some view ∧ view.line = line ∧
      scope.size ≤ limits.maxSnapshotVars ∧ Portrays limits.maxValueLen view scope := by
  have hanswers := Audience.operate_answers h.isFounded hoperate
  obtain ⟨e, view, he, hview, hseen, hfits, rfl⟩ := hanswers.lines _ hline line scope rfl
  obtain ⟨interpreter, hload⟩ := hanswers.founded.interpreter (he ▸ rfl)
  rw [hanswers.loader, hloader] at hload
  have hroom : 3 < session.limits.maxValueLen := by
    rw [hlimits]
    exact Snapshot.lt_maxValueLen_of_load hload
  have hportrays := portrays_scope (Nat.le_of_lt hroom) view
  rw [hlimits] at hfits hportrays ⊢
  refine ⟨e, view, he, hview, hseen, ?_, hportrays⟩
  rw [Bindings.size, Snapshot.scope, Bindings.map, List.length_map]
  exact hfits

/-- A script that binds a long text. -/
def lengthy : Program := [.assign 1 "a" (.str "abcdef"), .pass 2]

theorem compile_lengthy : Interpreter.compile ⟨10, 20⟩ "a = 'abcdef'\npass" = .ok lengthy.emit := by
  have hparse : Program.parse 20 "a = 'abcdef'\npass" = .ok lengthy := by cbv
  exact Interpreter.compile_of_parse hparse rfl

/-- In four characters there is room for the first one of a text and three dots. -/
theorem portrays_lengthy : ∃ session reaction scope, Lives session ∧
    session.limits = .ofLimits ⟨10, 1, 4, 20⟩ ∧
    session.loader = Interpreter.load ⟨10, 1, 4, 20⟩ ∧
    (Audience.constant true).operate 20 session (.command .continueExecution) = some reaction ∧
    .lineExecuted 2 scope ∈ reaction.events ∧ scope.entries = [("a", "a...")] ∧
    ∃ e view, reaction.session.execution = some e ∧ e.view? = some view ∧ view.line = 2 ∧
      scope.size ≤ 1 ∧ Portrays 4 view scope := by
  obtain ⟨loaded, hload⟩ : ∃ loaded,
      (new ⟨0⟩ ⟨1, 4⟩ (.ok ⟨10, 20⟩)).handle 20 .load = some loaded := ⟨_, rfl⟩
  obtain ⟨first, hstart, hlimits, hloader, reaction, scope, hoperate, hline, hscope⟩ : ∃ first,
      loaded.session.handle 20 (.startExecution "a = 'abcdef'\npass") = some first ∧
        first.session.limits = .ofLimits ⟨10, 1, 4, 20⟩ ∧
        first.session.loader = Interpreter.load ⟨10, 1, 4, 20⟩ ∧ ∃ reaction scope,
          (Audience.constant true).operate 20 first.session (.command .continueExecution) =
            some reaction ∧
          .lineExecuted 2 scope ∈ reaction.events ∧ scope.entries = [("a", "a...")] := by
    cases hload
    rw [handle, start_of_compile rfl compile_lengthy]
    exact ⟨_, rfl, rfl, rfl, _, _, rfl, List.mem_toArray.2 List.mem_cons_self, rfl⟩
  have hlives := ((Lives.new ⟨0⟩ ⟨1, 4⟩ (.ok ⟨10, 20⟩)).handle hload).handle hstart
  exact ⟨_, _, scope, hlives, hlimits, hloader, hoperate, hline, hscope,
    hlives.portrays hlimits hloader hoperate hline⟩

end Session

end Linewise
