import Linewise.Proofs.Session.Answer

/-!
# What a session tells of a stretch

A session that goes on with its run tells all texts that are printed up to the next line, and then
what comes there (`Session.Reports`): the line with its variables, the end of the run, its fault,
or that there are too many variables, with the rest of the run as texts. This is all that it tells
(`Session.exists_advance_iff`).
-/

namespace Linewise

open Wire (Event)

namespace Snapshot

/-- A line with few enough variables for a snapshot. -/
def Fits (limits : SnapshotLimits) (view : FrameView) : Prop :=
  view.bindings.size ≤ limits.maxVars

/-- The texts of the variables of a line. -/
def scope (limits : SnapshotLimits) (view : FrameView) : Bindings String :=
  view.bindings.map (display limits.maxValueLen)

variable {limits : SnapshotLimits} {view : FrameView}

theorem capture_of_fits (h : Fits limits view) : capture limits view = .ok (scope limits view) :=
  if_neg (Nat.not_lt.2 h)

/-- A scope whose capture failed is over its limit. -/
theorem not_fits_of_capture {failure : TraceFailure} (h : capture limits view = .error failure) :
    ¬Fits limits view := by
  intro hfits
  rw [capture_of_fits hfits] at h
  cases h

/-- A scope that was captured is within its limit. -/
theorem fits_of_capture {captured : Bindings String} (h : capture limits view = .ok captured) :
    Fits limits view := by
  rw [capture] at h
  split at h
  · cases h
  next hsize => exact Nat.not_lt.1 hsize

theorem exists_capture_of_not_fits (h : ¬Fits limits view) :
    ∃ failure, capture limits view = .error failure :=
  ⟨_, if_pos (Nat.lt_of_not_le h)⟩

end Snapshot

/-- The texts that tell of the end of a run that is not reported any more. -/
def Outcome.epilogue : Outcome → List String
  | faulted fault => [fault.text]
  | paused _ | finished | traceFailed _ => []

namespace Session

/-- The event that tells of a line. -/
def lineEvent (limits : SnapshotLimits) (view : FrameView) : Event :=
  .lineExecuted view.line (Snapshot.scope limits view)

/-- What is told where a stretch ends, and the run and the state of the session after it. -/
inductive Reports (limits : SnapshotLimits) (m : Machine) :
    List Event → Option Execution → SessionState → Prop
  | line {line : Line} {m' : Machine} (hstep : m.step = .atLine line m')
      (hfits : Snapshot.Fits limits (m'.view line)) :
      Reports limits m [lineEvent limits (m'.view line)] (some ⟨m', .paused line, true⟩)
        (.paused line)
  | finished {m' : Machine} (hstep : m.step = .finished m') :
      Reports limits m [.programEnd] none .finished
  | faulted {fault : Fault} {m' : Machine} (hstep : m.step = .faulted fault m') :
      Reports limits m [.error fault.text] none .errored
  /-- The rest of the run is told as texts, its fault included. -/
  | tooLarge {line : Line} {m' last : Machine} {failure : TraceFailure} {rest : List Sight}
      {outcome : Outcome} (hstep : m.step = .atLine line m')
      (hlarge : ¬Snapshot.Fits limits (m'.view line))
      (hfailure : Snapshot.capture limits (m'.view line) = .error failure)
      (hends : m'.Ends rest outcome last) :
      Reports limits m (.error failure.text :: outputs (Sight.texts rest ++ outcome.epilogue)) none
        .errored

/-- What a session tells of a stretch from a machine on, and the session after it. -/
inductive Advances (session : Session) (m : Machine) : List Event → Session → Prop
  | mk {n : Nat} {quiet : List Sight} {m₁ : Machine} {events : List Event}
      {execution : Option Execution} {state : SessionState} (hruns : m.Runs n quiet m₁)
      (hquiet : Sight.views quiet = [])
      (hreports : Reports session.limits m₁ events execution state) :
      Advances session m (outputs (Sight.texts quiet) ++ events)
        { session with execution, state }

variable {session after : Session} {events : Array Event} {told : List Event} {fuel : Nat}
  {e : Execution} {reaction : Reaction}

theorem append_told (events : Array Event) (told more : List Event) :
    (events ++ told) ++ more = events ++ (told ++ more) := by
  rw [← Array.toList_inj]
  simp

theorem push_append (events : Array Event) (told : List Event) (event : Event) :
    (events ++ told).push event = events ++ (told ++ [event]) := by
  rw [← append_told, ← Array.toList_inj]
  simp

theorem hear_watcher_eq (hopen : session.isOpen = true) (texts : List String) :
    session.watcher.hear events texts = events ++ outputs texts := by
  rw [← Array.toList_inj, hear_watcher hopen]
  simp

/-- Whoever listens hears of every line with few enough variables. -/
theorem onLine_watcher_eq (hopen : session.isOpen = true) (view : FrameView) :
    session.watcher.onLine view events =
      (Snapshot.capture session.limits view).map fun scope =>
        events.push (.lineExecuted view.line scope) := by
  rw [watcher]
  cases hcapture : Snapshot.capture session.limits view with
  | error failure => simp only [hcapture]; rfl
  | ok scope => simp only [hcapture, hopen, if_true]; rfl

/-- The rest of a run that cannot be reported is told as texts. -/
theorem finishUntraced_eq {m m' : Machine} {rest : List Sight} {outcome : Outcome}
    (hopen : session.isOpen = true) (hends : m.Ends rest outcome m')
    (hfinish : Execution.finish session.watcher fuel fuel ⟨m, .running, false⟩ events =
      some (outcome, ⟨m', outcome.control, false⟩, events ++ outputs (Sight.texts rest))) :
    session.finishUntraced fuel ⟨m, .running, false⟩ events =
      some ⟨{ session with execution := none, state := .errored },
        events ++ outputs (Sight.texts rest ++ outcome.epilogue), .ok ()⟩ := by
  rw [finishUntraced, hfinish]
  rcases hends.outcome_eq with rfl | ⟨fault, rfl⟩
  · simp [Outcome.epilogue]
  · dsimp only
    rw [reply_ended hopen, push_append, outputs_append]
    rfl

theorem attend_watcher_untraced (hopen : session.isOpen = true) (rest : List Sight) :
    session.watcher.attend false rest events = events ++ outputs (Sight.texts rest) := by
  rw [← hear_watcher_eq hopen]
  exact session.watcher.attend_of_quiet fun h => by cases h

/-- A run that ends is told to its end when it could not be reported any more: its texts, and how it
    ended. -/
theorem finishUntraced_of_ends {m m' : Machine} {rest : List Sight} {outcome : Outcome}
    (hopen : session.isOpen = true) (hends : m.Ends rest outcome m') (events : Array Event) :
    ∃ n, ∀ fuel, n ≤ fuel → session.finishUntraced fuel ⟨m, .running, false⟩ events =
      some ⟨{ session with execution := none, state := .errored },
        events ++ outputs (Sight.texts rest ++ outcome.epilogue), .ok ()⟩ := by
  obtain ⟨n, hfinish⟩ := Execution.finish_of_ends (e := ⟨m, .running, false⟩)
    (w := session.watcher) (s := events) rfl hends
  refine ⟨n, fun fuel hfuel => finishUntraced_eq hopen hends ?_⟩
  rw [← attend_watcher_untraced hopen]
  exact hfinish fuel fuel hfuel hfuel

/-- The rest of a run that could not be reported is told only when the run ends, and then as it has
    run. -/
theorem ends_of_finishUntraced {m : Machine} (hopen : session.isOpen = true)
    (h : session.finishUntraced fuel ⟨m, .running, false⟩ events = some reaction) :
    ∃ rest outcome m', m.Ends rest outcome m' ∧ reaction =
      ⟨{ session with execution := none, state := .errored },
        events ++ outputs (Sight.texts rest ++ outcome.epilogue), .ok ()⟩ := by
  cases hfinish : Execution.finish session.watcher fuel fuel ⟨m, .running, false⟩ events with
  | none => rw [finishUntraced, hfinish] at h; cases h
  | some result =>
    obtain ⟨outcome, e', told⟩ := result
    obtain ⟨rest, m', hends, rfl, rfl⟩ := Execution.ends_of_finish rfl hfinish
    rw [attend_watcher_untraced hopen] at hfinish
    rw [finishUntraced_eq hopen hends hfinish] at h
    exact ⟨rest, outcome, m', hends, (Option.some.inj h).symm⟩

/-- A line that cannot be reported is answered with the failure before the rest of the run. -/
theorem advance_of_traceFailed {e' : Execution} {failure : TraceFailure} {heard : Array Event}
    (hopen : session.isOpen = true) (he : session.execution = some e)
    (hresume : e.resume session.watcher fuel events = some (.traceFailed failure, e', heard)) :
    session.advance fuel events =
      session.finishUntraced fuel e' (heard.push (.error failure.text)) := by
  rw [advance, he]
  simp only [hresume]
  rw [if_pos hopen, ← tell_eq hopen]
  rfl

/-- All that a session tells when it goes on with its run. -/
theorem advances_of_advance (hopen : session.isOpen = true) (he : session.execution = some e)
    (hwatched : e.IsWatched) (h : session.advance fuel events = some reaction) :
    ∃ told, session.Advances e.machine told reaction.session ∧
      reaction.events = events ++ told ∧ reaction.result = .ok () := by
  cases hresume : e.resume session.watcher fuel events with
  | none => rw [advance, he] at h; simp only [hresume] at h; cases h
  | some result =>
    obtain ⟨outcome, e', heard⟩ := result
    have hstretch := Execution.stretch_of_resume hwatched.running hresume
    rw [hwatched.traced] at hstretch
    cases hstretch with
    | paused _ hruns hquiet hstep hline =>
      rw [onLine_watcher_eq hopen, hear_watcher_eq hopen] at hline
      -- The watcher has accepted the line, so its scope fits the limits.
      cases hcapture : Snapshot.capture session.limits _ with
      | error failure => rw [hcapture] at hline; cases hline
      | ok scope =>
        have hfits := Snapshot.fits_of_capture hcapture
        rw [Snapshot.capture_of_fits hfits] at hline
        cases hline
        rw [advance, he] at h
        simp only [hresume] at h
        cases h
        exact ⟨_, .mk hruns hquiet (.line hstep hfits), push_append .., rfl⟩
    | ended hends hquiet =>
      obtain ⟨n, m₁, hruns, hend⟩ := hends
      rw [advance, he] at h
      simp only [hresume] at h
      rw [hear_watcher_eq hopen] at h
      rcases Machine.Progress.eq_of_outcome? hend with ⟨rfl, hstep⟩ | ⟨fault, rfl, hstep⟩
      · dsimp only at h
        rw [reply_ended hopen] at h
        cases h
        exact ⟨_, .mk hruns (hquiet rfl) (.finished hstep), push_append .., rfl⟩
      · dsimp only [fail] at h
        rw [reply_ended hopen] at h
        cases h
        exact ⟨_, .mk hruns (hquiet rfl) (.faulted hstep), push_append .., rfl⟩
    | @traceFailed n sights m₁ m₂ line failure _ hruns hquiet hstep hline =>
      -- The watcher fails only by a scope that is too large, and the rest of the run goes on
      -- untraced.
      have hfailure : Snapshot.capture session.limits (m₂.view line) = .error failure := by
        rw [onLine_watcher_eq hopen] at hline
        cases hcapture : Snapshot.capture session.limits (m₂.view line) with
        | error failure' => rw [hcapture] at hline; cases hline; rfl
        | ok scope => rw [hcapture] at hline; cases hline
      rw [advance_of_traceFailed hopen he hresume, hear_watcher_eq hopen, push_append] at h
      obtain ⟨rest, outcome, m', hends, rfl⟩ := ends_of_finishUntraced hopen h
      have hlarge := Snapshot.not_fits_of_capture hfailure
      refine ⟨_, .mk hruns hquiet (.tooLarge hstep hlarge hfailure hends), ?_, rfl⟩
      simp [append_told]

/-- Whatever there is to tell of a stretch is told with enough fuel. -/
theorem advance_of_advances (hopen : session.isOpen = true) (he : session.execution = some e)
    (hwatched : e.IsWatched) (h : session.Advances e.machine told after)
    (events : Array Event) :
    ∃ n, ∀ fuel, n ≤ fuel → session.advance fuel events = some ⟨after, events ++ told, .ok ()⟩ := by
  -- Each kind of report comes of one stretch, for which some fuel is enough.
  have hresume : ∀ {outcome e' heard},
      Execution.Stretch session.watcher e.machine true events outcome e' heard →
        ∃ n, ∀ fuel, n ≤ fuel →
          e.resume session.watcher fuel events = some (outcome, e', heard) := by
    intro outcome e' heard hstretch
    rw [← hwatched.traced] at hstretch
    exact Execution.resume_of_stretch hwatched.running hstretch
  obtain ⟨hruns, hquiet, hreports⟩ := h
  cases hreports with
  | @line line m' hstep hfits =>
    obtain ⟨n, hfirst⟩ := hresume (.paused rfl hruns hquiet hstep (by
      rw [onLine_watcher_eq hopen, hear_watcher_eq hopen, Snapshot.capture_of_fits hfits]
      rfl))
    refine ⟨n, fun fuel hfuel => ?_⟩
    rw [advance, he]
    simp only [hfirst fuel hfuel, push_append]
    rfl
  | finished hstep =>
    obtain ⟨n, hfirst⟩ := hresume (.ended ⟨_, _, hruns, by rw [hstep]; rfl⟩ fun _ => hquiet)
    refine ⟨n, fun fuel hfuel => ?_⟩
    rw [advance, he]
    simp only [hfirst fuel hfuel]
    rw [reply_ended hopen, hear_watcher_eq hopen, push_append]
  | faulted hstep =>
    obtain ⟨n, hfirst⟩ := hresume (.ended ⟨_, _, hruns, by rw [hstep]; rfl⟩ fun _ => hquiet)
    refine ⟨n, fun fuel hfuel => ?_⟩
    rw [advance, he]
    simp only [hfirst fuel hfuel, fail]
    rw [reply_ended hopen, hear_watcher_eq hopen, push_append]
  | @tooLarge line m' last failure rest outcome hstep hlarge hfailure hends =>
    obtain ⟨n, hfirst⟩ := hresume (.traceFailed rfl hruns hquiet hstep (by
      rw [onLine_watcher_eq hopen, hfailure]
      rfl))
    obtain ⟨k, hrest⟩ := finishUntraced_of_ends hopen hends
      (events ++ (outputs (Sight.texts _) ++ [.error failure.text]))
    -- The fuel must last for the stretch up to the failure and for the untraced rest.
    refine ⟨n + k, fun fuel hfuel => ?_⟩
    rw [advance_of_traceFailed hopen he (hfirst fuel (by omega)), hear_watcher_eq hopen,
      push_append, hrest fuel (by omega)]
    simp [append_told]

/-- All that a session may tell of a stretch is what it tells. -/
theorem exists_advance_iff (hopen : session.isOpen = true) (he : session.execution = some e)
    (hwatched : e.IsWatched) :
    (∃ fuel, session.advance fuel events = some reaction) ↔
      ∃ told, session.Advances e.machine told reaction.session ∧
        reaction.events = events ++ told ∧ reaction.result = .ok () := by
  constructor
  · rintro ⟨fuel, h⟩
    exact advances_of_advance hopen he hwatched h
  · rintro ⟨told, hadvances, hevents, hresult⟩
    obtain ⟨n, h⟩ := advance_of_advances hopen he hwatched hadvances events
    obtain ⟨after, all, result⟩ := reaction
    cases hevents
    cases hresult
    exact ⟨n, h n (Nat.le_refl n)⟩

end Session

end Linewise
