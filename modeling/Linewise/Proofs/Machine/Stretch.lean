import Linewise.Proofs.Machine.Run
import Linewise.Proofs.Machine.Trace

/-!
# Stretches of an execution

What watching makes of the run of a machine. A stretch (`Execution.Stretch`) follows the run up to
its next line while it is traced, and up to its end when it is not; the watcher is told the texts on
the way. All stretches together follow the run to its end (`Execution.exists_finish_iff`), and the
watcher is told its trace (`Watcher.attend`).
-/

namespace Linewise

variable {σ : Type}

namespace Watcher

variable (w : Watcher σ)

theorem hear_cons (s : σ) (text : String) (texts : List String) :
    w.hear s (text :: texts) = w.hear (w.onPrint text s) texts :=
  rfl

theorem hear_append (s : σ) (texts rest : List String) :
    w.hear s (texts ++ rest) = w.hear (w.hear s texts) rest :=
  List.foldl_append

/-- The state of a watcher that has been told a trace: all texts, and all lines up to one that it
    could not accept. -/
def attend : (traced : Bool) → List Sight → σ → σ
  | _, [], s => s
  | traced, .text text :: rest, s => attend traced rest (w.onPrint text s)
  | false, .line _ :: rest, s => attend false rest s
  | true, .line view :: rest, s =>
    match w.onLine view s with
    | .ok s => attend true rest s
    | .error _ => attend false rest s

/-- Texts are heard in any case. -/
theorem attend_append_of_quiet {traced : Bool} {quiet rest : List Sight} {s : σ}
    (h : traced = true → Sight.views quiet = []) :
    w.attend traced (quiet ++ rest) s = w.attend traced rest (w.hear s (Sight.texts quiet)) := by
  induction quiet generalizing s with
  | nil => rfl
  | cons sight quiet ih =>
    cases sight with
    | text text =>
      rw [List.cons_append, attend]
      exact ih h
    | line view =>
      cases traced with
      | false =>
        rw [List.cons_append, attend]
        exact ih nofun
      | true => cases h rfl

/-- Whoever is shown no line only hears the texts. -/
theorem attend_of_quiet {traced : Bool} {sights : List Sight} {s : σ}
    (h : traced = true → Sight.views sights = []) :
    w.attend traced sights s = w.hear s (Sight.texts sights) := by
  rw [← sights.append_nil, w.attend_append_of_quiet h, List.append_nil, attend]

end Watcher

/-- How far a run has come after a stretch that ended in a given way. -/
def Outcome.control : Outcome → Control
  | paused line => .paused line
  | finished => .done
  | faulted fault => .faulted fault
  | traceFailed _ => .running

namespace Execution

/-- The execution is traced and not over. -/
structure IsWatched (e : Execution) : Prop where
  traced : e.traced = true
  running : e.isTerminated = false

/-- A stretch from a machine on: why it ends, the execution after it and what has become of the
    watcher. -/
inductive Stretch (w : Watcher σ) (m : Machine) (traced : Bool) (s : σ) :
    Outcome → Execution → σ → Prop
  /-- The watcher has accepted the next line. -/
  | paused {n : Nat} {sights : List Sight} {m₁ m₂ : Machine} {line : Line} {s' : σ}
      (htraced : traced = true) (hruns : m.Runs n sights m₁) (hquiet : Sight.views sights = [])
      (hstep : m₁.step = .atLine line m₂)
      (hline : w.onLine (m₂.view line) (w.hear s (Sight.texts sights)) = .ok s') :
      Stretch w m traced s (.paused line) ⟨m₂, .paused line, true⟩ s'
  /-- The watcher could not accept the next line. -/
  | traceFailed {n : Nat} {sights : List Sight} {m₁ m₂ : Machine} {line : Line}
      {failure : TraceFailure} (htraced : traced = true) (hruns : m.Runs n sights m₁)
      (hquiet : Sight.views sights = []) (hstep : m₁.step = .atLine line m₂)
      (hline : w.onLine (m₂.view line) (w.hear s (Sight.texts sights)) = .error failure) :
      Stretch w m traced s (.traceFailed failure) ⟨m₂, .running, false⟩
        (w.hear s (Sight.texts sights))
  /-- The run has come to its end. -/
  | ended {sights : List Sight} {outcome : Outcome} {m' : Machine}
      (hends : m.Ends sights outcome m') (hquiet : traced = true → Sight.views sights = []) :
      Stretch w m traced s outcome ⟨m', outcome.control, false⟩ (w.hear s (Sight.texts sights))

variable {w : Watcher σ} {s s' : σ} {outcome : Outcome} {e e' : Execution} {m m' : Machine}
  {n : Nat} {sights : List Sight} {traced : Bool}

/-! ## Steps of a stretch -/

/-- A step goes on when the machine does and no line is shown to the watcher. -/
theorem step_quiet (hstep : e.machine.step.next? = some m)
    (hquiet : e.traced = true → Sight.views e.machine.step.sights = []) :
    e.step w s =
      (none, { e with machine := m }, w.hear s (Sight.texts e.machine.step.sights)) := by
  rw [step]
  cases hprogress : e.machine.step with
  | next m₁ => rw [hprogress] at hstep; cases hstep; rfl
  | printed text m₁ => rw [hprogress] at hstep; cases hstep; rfl
  | atLine line m₁ =>
    rw [hprogress] at hstep hquiet
    cases hstep
    cases htraced : e.traced with
    | true => cases hquiet htraced
    | false => rfl
  | finished m₁ => rw [hprogress] at hstep; cases hstep
  | faulted fault m₁ => rw [hprogress] at hstep; cases hstep

/-- An execution follows a run of its machine as long as no line is shown to the watcher. -/
theorem steps_of_runs (h : m.Runs n sights m') (hm : e.machine = m)
    (hquiet : e.traced = true → Sight.views sights = []) (fuel : Nat) :
    e.steps w (n + fuel) s =
      { e with machine := m' }.steps w fuel (w.hear s (Sight.texts sights)) := by
  induction h generalizing e s with
  | refl => rw [Nat.zero_add, ← hm]; rfl
  | @head n m m₁ m' sights hstep _ ih =>
    subst hm
    have hfirst : e.traced = true → Sight.views e.machine.step.sights = [] := by
      intro htraced
      have happend := hquiet htraced
      rw [Sight.views_append, List.append_eq_nil_iff] at happend
      exact happend.1
    have hrest : e.traced = true → Sight.views sights = [] := by
      intro htraced
      have happend := hquiet htraced
      rw [Sight.views_append, List.append_eq_nil_iff] at happend
      exact happend.2
    rw [Nat.add_right_comm, steps, step_quiet hstep hfirst, Sight.texts_append,
      Watcher.hear_append]
    exact ih (e := { e with machine := m₁ }) rfl hrest

/-- Where a line is reached, the watcher decides whether the stretch ends there. -/
theorem steps_of_line {line : Line} {fuel : Nat} (hstep : e.machine.step = .atLine line m)
    (htraced : e.traced = true) :
    e.steps w (fuel + 1) s =
      match w.onLine (m.view line) s with
      | .ok s' => some (.paused line, ⟨m, .paused line, true⟩, s')
      | .error failure => some (.traceFailed failure, ⟨m, e.control, false⟩, s) := by
  rw [steps, step, hstep]
  simp only [htraced, if_true]
  cases w.onLine (m.view line) s <;> rfl

/-- A step that ends the run ends the stretch. -/
theorem steps_of_outcome? {fuel : Nat} (hend : e.machine.step.outcome? = some (outcome, m)) :
    e.steps w (fuel + 1) s = some (outcome, ⟨m, outcome.control, false⟩, s) := by
  rw [steps, step]
  cases hprogress : e.machine.step with
  | finished m₁ => rw [hprogress] at hend; cases hend; rfl
  | faulted fault m₁ => rw [hprogress] at hend; cases hend; rfl
  | _ => rw [hprogress] at hend; cases hend

/-- What is told before a stretch is told before all that the stretch tells. -/
theorem Stretch.head (h : Stretch w m traced (w.hear s (Sight.texts m'.step.sights)) outcome e s')
    (hstep : m'.step.next? = some m)
    (hquiet : traced = true → Sight.views m'.step.sights = []) :
    Stretch w m' traced s outcome e s' := by
  cases h with
  | paused htraced hruns hviews hline hview =>
    rw [← Watcher.hear_append, ← Sight.texts_append] at hview
    refine .paused htraced (.head hstep hruns) ?_ hline hview
    rw [Sight.views_append, hquiet htraced, hviews]
    rfl
  | traceFailed htraced hruns hviews hline hview =>
    rw [← Watcher.hear_append, ← Sight.texts_append] at hview ⊢
    refine .traceFailed htraced (.head hstep hruns) ?_ hline hview
    rw [Sight.views_append, hquiet htraced, hviews]
    rfl
  | @ended sights _ m' hends hviews =>
    rw [← Watcher.hear_append, ← Sight.texts_append]
    have hruns := Machine.Runs.head hstep (.refl m)
    rw [List.append_nil] at hruns
    refine .ended (hruns.ends hends) fun htraced => ?_
    rw [Sight.views_append, hquiet htraced, hviews htraced]
    rfl

/-- An execution that is running makes a stretch. -/
theorem stretch_of_steps {fuel : Nat} (hcontrol : e.control = .running)
    (h : e.steps w fuel s = some (outcome, e', s')) :
    Stretch w e.machine e.traced s outcome e' s' := by
  induction fuel generalizing e s with
  | zero => cases h
  | succ fuel ih =>
    by_cases hquiet : e.traced = true → Sight.views e.machine.step.sights = []
    · cases hnext : e.machine.step.next? with
      | some m =>
        -- A quiet step is put in front of the stretch that follows it.
        rw [steps, step_quiet hnext hquiet] at h
        exact (ih (e := { e with machine := m }) hcontrol h).head hnext hquiet
      | none =>
        obtain ⟨⟨outcome', m⟩, hend⟩ : ∃ r, e.machine.step.outcome? = some r := by
          cases hprogress : e.machine.step with
          | finished m => exact ⟨_, rfl⟩
          | faulted fault m => exact ⟨_, rfl⟩
          | _ => rw [hprogress] at hnext; cases hnext
        rw [steps_of_outcome? hend] at h
        cases h
        have hends : e.machine.Ends [] outcome m := ⟨0, _, .refl _, hend⟩
        exact .ended hends fun _ => rfl
    · -- The watcher is shown a line, which ends the stretch.
      obtain ⟨htraced, hviews⟩ := Classical.not_imp.1 hquiet
      cases hprogress : e.machine.step with
      | atLine line m =>
        have hruns : e.machine.Runs 0 [] e.machine := .refl _
        rw [steps_of_line hprogress htraced] at h
        cases hline : w.onLine (m.view line) s with
        | ok s₁ =>
          rw [hline] at h
          cases h
          exact .paused htraced hruns rfl hprogress hline
        | error failure =>
          rw [hline, hcontrol] at h
          cases h
          exact .traceFailed htraced hruns rfl hprogress hline
      | _ => rw [hprogress] at hviews; exact absurd rfl hviews

/-- A stretch is made by an execution with enough fuel. -/
theorem steps_of_stretch (hcontrol : e.control = .running)
    (h : Stretch w e.machine e.traced s outcome e' s') :
    ∃ fuel, e.steps w fuel s = some (outcome, e', s') := by
  have hfollow : ∀ {n sights m₁}, e.machine.Runs n sights m₁ →
      (e.traced = true → Sight.views sights = []) → e.steps w (n + 1) s =
        { e with machine := m₁ }.steps w 1 (w.hear s (Sight.texts sights)) :=
    fun hruns hquiet => steps_of_runs hruns rfl hquiet 1
  cases h with
  | @paused n sights m₁ m₂ line _ htraced hruns hquiet hstep hline =>
    refine ⟨n + 1, ?_⟩
    rw [hfollow hruns fun _ => hquiet, steps_of_line (e := ⟨m₁, _, _⟩) hstep htraced, hline]
  | @traceFailed n sights m₁ m₂ line failure htraced hruns hquiet hstep hline =>
    refine ⟨n + 1, ?_⟩
    rw [hfollow hruns fun _ => hquiet, steps_of_line (e := ⟨m₁, _, _⟩) hstep htraced, hline,
      hcontrol]
  | ended hends hquiet =>
    obtain ⟨n, m₁, hruns, hend⟩ := hends
    refine ⟨n + 1, ?_⟩
    rw [hfollow hruns hquiet, steps_of_outcome? (e := ⟨m₁, _, _⟩) hend]

/-! ## Stretches -/

/-- A stretch of an execution that is not over is a run of steps. -/
theorem resume_eq_steps {fuel : Nat} (h : e.isTerminated = false) :
    e.resume w fuel s = { e with control := .running }.steps w fuel s := by
  rw [isTerminated] at h
  rw [resume]
  split at h
  · cases h
  · cases h
  next hdone hfaulted =>
    split
    next fault hcontrol => exact absurd hcontrol (hfaulted fault)
    next hcontrol => exact absurd hcontrol hdone
    · rfl
    · rfl

/-- Resuming an execution that is not over is to make a stretch. -/
theorem exists_resume_iff (h : e.isTerminated = false) :
    (∃ fuel, e.resume w fuel s = some (outcome, e', s')) ↔
      Stretch w e.machine e.traced s outcome e' s' := by
  simp only [resume_eq_steps h]
  exact ⟨fun ⟨_, hsteps⟩ => stretch_of_steps (e := { e with control := .running }) rfl hsteps,
    steps_of_stretch (e := { e with control := .running }) rfl⟩

/-- What a resumed execution does until it rests is a stretch. -/
theorem stretch_of_resume {fuel : Nat} (h : e.isTerminated = false)
    (hresume : e.resume w fuel s = some (outcome, e', s')) :
    Stretch w e.machine e.traced s outcome e' s' :=
  (exists_resume_iff h).1 ⟨fuel, hresume⟩

/-- What comes of a stretch does not depend on the fuel. -/
theorem resume_mono {fuel fuel' : Nat} {r : Outcome × Execution × σ} (hle : fuel ≤ fuel')
    (h : e.resume w fuel s = some r) : e.resume w fuel' s = some r := by
  rw [resume] at h ⊢
  split at h
  · exact h
  · exact h
  · exact steps_mono hle h
  · exact steps_mono hle h

/-- An untraced stretch goes on to the end of the run. -/
theorem Stretch.outcome_eq (h : Stretch w m traced s outcome e s') (htraced : traced = false) :
    outcome = .finished ∨ ∃ fault, outcome = .faulted fault := by
  subst htraced
  cases h with
  | paused htraced => cases htraced
  | traceFailed htraced => cases htraced
  | ended hends _ => exact hends.outcome_eq

/-- An execution that is over gives its outcome again, and stays as it is. -/
theorem resume_of_isTerminated (h : e.isTerminated = true) (w : Watcher σ) (s : σ) :
    ∃ outcome : Outcome, (outcome = .finished ∨ ∃ fault, outcome = .faulted fault) ∧
      ∀ fuel, e.resume w fuel s = some (outcome, e, s) := by
  rw [isTerminated] at h
  split at h
  next hcontrol => exact ⟨.finished, .inl rfl, fun fuel => by rw [resume, hcontrol]⟩
  next fault hcontrol =>
    exact ⟨.faulted fault, .inr ⟨fault, rfl⟩, fun fuel => by rw [resume, hcontrol]⟩
  next => cases h

/-- A stretch is made with any fuel that is enough. -/
theorem resume_of_stretch (h : e.isTerminated = false)
    (hstretch : Stretch w e.machine e.traced s outcome e' s') :
    ∃ n, ∀ fuel, n ≤ fuel → e.resume w fuel s = some (outcome, e', s') := by
  obtain ⟨n, hresume⟩ := (exists_resume_iff h).2 hstretch
  exact ⟨n, fun fuel hle => resume_mono hle hresume⟩

/-- What is untraced is only resumed up to its end. -/
theorem outcome_of_resume {fuel : Nat} (htraced : e.traced = false)
    (hresume : e.resume w fuel s = some (outcome, e', s')) :
    outcome = .finished ∨ ∃ fault, outcome = .faulted fault := by
  cases hterminated : e.isTerminated with
  | true =>
    obtain ⟨outcome', houtcome, hagain⟩ := resume_of_isTerminated hterminated w s
    rw [hagain] at hresume
    cases hresume
    exact houtcome
  | false => exact (stretch_of_resume hterminated hresume).outcome_eq htraced

/-! ## All stretches of a run -/

/-- The stretch at the end of a run is the last one. -/
theorem finish_of_resume {fuel stretches : Nat}
    (houtcome : outcome = .finished ∨ ∃ fault, outcome = .faulted fault)
    (hresume : e.resume w fuel s = some (outcome, e', s')) :
    e.finish w fuel (stretches + 1) s = some (outcome, e', s') := by
  rw [finish, hresume]
  rcases houtcome with rfl | ⟨fault, rfl⟩ <;> rfl

/-- What the stretches of a run tell is its trace, and they take it to its end. -/
theorem ends_of_finish {fuel stretches : Nat} (h : e.isTerminated = false)
    (hfinish : e.finish w fuel stretches s = some (outcome, e', s')) :
    ∃ sights m', e.machine.Ends sights outcome m' ∧ e' = ⟨m', outcome.control, false⟩ ∧
      s' = w.attend e.traced sights s := by
  induction stretches generalizing e s with
  | zero => cases hfinish
  | succ stretches ih =>
    cases hresume : e.resume w fuel s with
    | none => rw [finish, hresume] at hfinish; cases hfinish
    | some result =>
      obtain ⟨outcome₁, e₁, s₁⟩ := result
      have hstretch := stretch_of_resume h hresume
      generalize htraced : e.traced = traced at hstretch ⊢
      cases hstretch with
      | @paused _ quiet _ m₂ line _ htrue hruns hquiet hstep hline =>
        subst htrue
        rw [finish, hresume] at hfinish
        obtain ⟨rest, m', hends, he', hs'⟩ := ih rfl hfinish
        refine ⟨quiet ++ .line (m₂.view line) :: rest, m',
          hruns.ends (hends.atLine hstep), he', ?_⟩
        rw [w.attend_append_of_quiet fun _ => hquiet, Watcher.attend, hline, hs']
      | @traceFailed _ quiet _ m₂ line failure htrue hruns hquiet hstep hline =>
        subst htrue
        rw [finish, hresume] at hfinish
        obtain ⟨rest, m', hends, he', hs'⟩ := ih rfl hfinish
        refine ⟨quiet ++ .line (m₂.view line) :: rest, m',
          hruns.ends (hends.atLine hstep), he', ?_⟩
        rw [w.attend_append_of_quiet fun _ => hquiet, Watcher.attend, hline, hs']
      | @ended sights _ m' hends hquiet =>
        rw [finish_of_resume hends.outcome_eq hresume] at hfinish
        cases hfinish
        exact ⟨sights, m', hends, rfl, (w.attend_of_quiet hquiet).symm⟩

/-- A run that ends is taken to its end by enough stretches of enough steps. -/
theorem finish_of_ends (h : e.isTerminated = false) (hends : e.machine.Ends sights outcome m') :
    ∃ n, ∀ fuel stretches, n ≤ fuel → n ≤ stretches →
      e.finish w fuel stretches s =
        some (outcome, ⟨m', outcome.control, false⟩, w.attend e.traced sights s) := by
  -- Each stretch but the last one takes a line from the trace.
  induction hlength : sights.length using Nat.strongRecOn generalizing e sights s with
  | ind length ih =>
    subst hlength
    by_cases hlast : e.traced = true → Sight.views sights = []
    · obtain ⟨n, hresume⟩ := resume_of_stretch h (.ended (w := w) (s := s) hends hlast)
      refine ⟨n + 1, fun fuel stretches hfuel hstretches => ?_⟩
      obtain ⟨stretches, rfl⟩ := Nat.exists_eq_add_of_le' hstretches
      rw [← Nat.add_assoc, finish_of_resume hends.outcome_eq
        (hresume fuel (Nat.le_of_succ_le hfuel)), w.attend_of_quiet hlast]
    · obtain ⟨htraced, hviews⟩ := Classical.not_imp.1 hlast
      rcases hends.quiet_or with hnone |
        ⟨k, quiet, m₁, line, m₂, rest, hruns, hquiet, hstep, hrest, rfl⟩
      · exact absurd hnone hviews
      · have hshorter : rest.length < (quiet ++ .line (m₂.view line) :: rest).length := by
          rw [List.length_append, List.length_cons]
          omega
        rw [w.attend_append_of_quiet fun _ => hquiet, htraced, Watcher.attend]
        cases hline : w.onLine (m₂.view line) (w.hear s (Sight.texts quiet)) with
        | ok s₁ =>
          obtain ⟨n, hresume⟩ := resume_of_stretch h
            (.paused (w := w) htraced hruns hquiet hstep hline)
          obtain ⟨k, hfinish⟩ := ih _ hshorter (e := ⟨m₂, .paused line, true⟩) (s := s₁) rfl hrest
            rfl
          refine ⟨n + k + 1, fun fuel stretches hfuel hstretches => ?_⟩
          obtain ⟨stretches, rfl⟩ := Nat.exists_eq_add_of_le' hstretches
          rw [← Nat.add_assoc, finish, hresume fuel (by omega)]
          exact hfinish fuel _ (by omega) (by omega)
        | error failure =>
          obtain ⟨n, hresume⟩ := resume_of_stretch h
            (.traceFailed (w := w) htraced hruns hquiet hstep hline)
          obtain ⟨k, hfinish⟩ := ih _ hshorter (e := ⟨m₂, .running, false⟩)
            (s := w.hear s (Sight.texts quiet)) rfl hrest rfl
          refine ⟨n + k + 1, fun fuel stretches hfuel hstretches => ?_⟩
          obtain ⟨stretches, rfl⟩ := Nat.exists_eq_add_of_le' hstretches
          rw [← Nat.add_assoc, finish, hresume fuel (by omega)]
          exact hfinish fuel _ (by omega) (by omega)

/-- The stretches of an execution come to an end exactly if its run does, whoever watches it. -/
theorem exists_finish_iff (h : e.isTerminated = false) :
    (∃ fuel stretches, e.finish w fuel stretches s = some (outcome, e', s')) ↔
      ∃ sights m', e.machine.Ends sights outcome m' ∧ e' = ⟨m', outcome.control, false⟩ ∧
        s' = w.attend e.traced sights s := by
  constructor
  · rintro ⟨fuel, stretches, hfinish⟩
    exact ends_of_finish h hfinish
  · rintro ⟨sights, m', hends, rfl, rfl⟩
    obtain ⟨n, hfinish⟩ := finish_of_ends (w := w) (s := s) h hends
    exact ⟨n, n, hfinish n n (Nat.le_refl n) (Nat.le_refl n)⟩

/-! ## What a stretch tells -/

/-- What a watcher has been told in a stretch, of any execution: some texts, and if the stretch
    ended at a line, that line after them. -/
inductive Told (w : Watcher σ) (s : σ) : Outcome → Execution → σ → Prop
  | paused {e : Execution} {s' : σ} {line : Line} (texts : List String) (view : FrameView)
      (hline : view.line = line) (h : w.onLine view (w.hear s texts) = .ok s') :
      Told w s (.paused line) e s'
  /-- The watcher could not accept the line, and the run is traced no more. -/
  | traceFailed {e : Execution} (texts : List String) {view : FrameView} {failure : TraceFailure}
      (h : w.onLine view (w.hear s texts) = .error failure) (htraced : e.traced = false) :
      Told w s (.traceFailed failure) e (w.hear s texts)
  | ended {outcome : Outcome} {e : Execution} (texts : List String)
      (houtcome : outcome = .finished ∨ ∃ fault, outcome = .faulted fault) :
      Told w s outcome e (w.hear s texts)

/-- Whatever a stretch does, its watcher is told what `Told` says. -/
theorem told_of_resume {fuel : Nat} (hresume : e.resume w fuel s = some (outcome, e', s')) :
    Told w s outcome e' s' := by
  cases hterminated : e.isTerminated with
  | true =>
    obtain ⟨outcome', houtcome, hagain⟩ := resume_of_isTerminated hterminated w s
    rw [hagain] at hresume
    cases hresume
    exact .ended [] houtcome
  | false =>
    cases stretch_of_resume hterminated hresume with
    | paused _ _ _ _ hline => exact .paused _ _ (Machine.line_view _ _) hline
    | traceFailed _ _ _ _ hline => exact .traceFailed _ hline rfl
    | ended hends _ => exact .ended _ hends.outcome_eq

/-- The rest of an untraced run is told as texts alone. -/
theorem told_of_finish {fuel stretches : Nat} (htraced : e.traced = false)
    (hfinish : e.finish w fuel stretches s = some (outcome, e', s')) :
    (outcome = .finished ∨ ∃ fault, outcome = .faulted fault) ∧
      ∃ texts, s' = w.hear s texts := by
  cases hterminated : e.isTerminated with
  | true =>
    obtain ⟨outcome', houtcome, hagain⟩ := resume_of_isTerminated hterminated w s
    cases stretches with
    | zero => cases hfinish
    | succ stretches =>
      rw [finish_of_resume houtcome (hagain fuel)] at hfinish
      cases hfinish
      exact ⟨houtcome, [], rfl⟩
  | false =>
    obtain ⟨sights, m', hends, rfl, rfl⟩ := ends_of_finish hterminated hfinish
    refine ⟨hends.outcome_eq, Sight.texts sights, w.attend_of_quiet fun htrue => ?_⟩
    rw [htraced] at htrue
    cases htrue

end Execution

end Linewise
