import Linewise.Code.Emission
import Linewise.Proofs.Machine.Stretch

/-!
# Watching changes nothing

Whoever watches a run can accept a line or fail at it, and nothing else. So the run prints what it
prints when nobody watches, and it ends as it ends then, if it ends at all. A watcher that fails is
shown no line after the one that it failed at, and those before that one are the first ones that
every run of the code shows (`Execution.watching_transparent`).

What happens to a watcher is noted beside it (`Watcher.noting`), so that watchers of all kinds can
be compared with the one that accepts and notes everything (`Watcher.recorder`).
-/

namespace Linewise

variable {σ : Type}

namespace Watcher

/-- The watcher that accepts every line and notes all that it is told. -/
def recorder : Watcher (List Sight) where
  onLine view seen := .ok (seen ++ [.line view])
  onPrint text seen := seen ++ [.text text]

/-- A watcher, and a note of all that it has been told. A line that it fails at is not noted. -/
def noting (w : Watcher σ) : Watcher (σ × List Sight) where
  onLine view s := (w.onLine view s.1).map fun s' => (s', s.2 ++ [.line view])
  onPrint text s := (w.onPrint text s.1, s.2 ++ [.text text])

variable {w : Watcher σ} {s s' : σ × List Sight} {seen : List Sight} {view : FrameView}

/-- The recorder keeps the texts in the order in which they are printed. -/
theorem hear_recorder (texts : List String) :
    recorder.hear seen texts = seen ++ texts.map .text := by
  induction texts generalizing seen with
  | nil => exact (List.append_nil seen).symm
  | cons text texts ih =>
    rw [hear_cons, ih, List.map_cons, recorder, List.append_assoc, List.singleton_append]

/-- Texts are noted as the recorder notes them. -/
theorem hear_noting (texts : List String) :
    (w.noting.hear s texts).2 = recorder.hear s.2 texts := by
  induction texts generalizing s with
  | nil => rfl
  | cons text texts ih => exact ih

theorem onLine_noting :
    w.noting.onLine view s = (w.onLine view s.1).map fun s' => (s', s.2 ++ [.line view]) :=
  rfl

/-- A line that is accepted is noted as the recorder notes it. -/
theorem onLine_recorder (h : w.noting.onLine view s = .ok s') :
    recorder.onLine view s.2 = .ok s'.2 := by
  rw [onLine_noting] at h
  cases hline : w.onLine view s.1 with
  | ok s₁ => rw [hline] at h; cases h; rfl
  | error failure => rw [hline] at h; cases h

/-- The note does not matter for what the watcher fails at. -/
theorem onLine_of_noting_error {failure : TraceFailure}
    (h : w.noting.onLine view s = .error failure) : w.onLine view s.1 = .error failure := by
  rw [onLine_noting] at h
  cases hline : w.onLine view s.1 with
  | ok s₁ => rw [hline] at h; cases h
  | error failure' => rw [hline] at h; cases h; rfl

/-- Whatever becomes of the watcher, all texts of a trace are noted. -/
theorem texts_attend_noting (traced : Bool) (sights : List Sight) :
    Sight.texts (w.noting.attend traced sights s).2 = Sight.texts s.2 ++ Sight.texts sights := by
  induction sights generalizing traced s with
  | nil => exact (List.append_nil _).symm
  | cons sight rest ih =>
    cases sight with
    | text text =>
      rw [attend, noting]
      exact (ih traced).trans (by simp)
    | line view =>
      cases traced with
      | false =>
        rw [attend]
        exact ih false
      | true =>
        rw [attend]
        cases hline : w.noting.onLine view s with
        | error failure => exact ih false
        | ok s' =>
          have hseen : s.2 ++ [.line view] = s'.2 := Except.ok.inj (onLine_recorder hline)
          refine (ih true).trans ?_
          simp [← hseen]

/-- The recorder notes a whole trace. -/
theorem attend_recorder (seen sights : List Sight) :
    recorder.attend true sights seen = seen ++ sights := by
  induction sights generalizing seen with
  | nil => exact (List.append_nil seen).symm
  | cons sight rest ih =>
    rw [List.append_cons, ← ih]
    cases sight <;> rfl

/-- Without lines the recorder notes the texts. -/
theorem attend_recorder_untraced (seen sights : List Sight) :
    recorder.attend false sights seen = seen ++ (Sight.texts sights).map .text := by
  rw [← hear_recorder]
  exact recorder.attend_of_quiet fun h => by cases h

end Watcher

namespace Execution

/-- A number of stretches that each end with a pause. -/
inductive Pauses (w : Watcher σ) : Nat → Execution → σ → Execution → σ → Prop
  | refl (e : Execution) (s : σ) : Pauses w 0 e s e s
  | resume {k fuel : Nat} {line : Line} {e e₁ e' : Execution} {s s₁ s' : σ}
      (hresume : e.resume w fuel s = some (.paused line, e₁, s₁))
      (h : Pauses w k e₁ s₁ e' s') : Pauses w (k + 1) e s e' s'

variable {w : Watcher σ} {e e' : Execution} {k : Nat}

/-- One more stretch that ends with a pause may follow. -/
theorem Pauses.concat {e₁ : Execution} {s s₁ s' : σ} {fuel : Nat} {line : Line}
    (h : Pauses w k e s e₁ s₁) (hresume : e₁.resume w fuel s₁ = some (.paused line, e', s')) :
    Pauses w (k + 1) e s e' s' := by
  induction h with
  | refl => exact .resume hresume (.refl e' s')
  | resume hfirst _ ih => exact .resume hfirst (ih hresume)

/-- The recorder accepts a line that it is shown after some texts. -/
theorem resume_recorder {n : Nat} {quiet : List Sight} {m₁ m₂ : Machine} {line : Line}
    (he : e.IsWatched) (hruns : e.machine.Runs n quiet m₁) (hquiet : Sight.views quiet = [])
    (hstep : m₁.step = .atLine line m₂) (seen : List Sight) :
    ∃ fuel, e.resume .recorder fuel seen = some (.paused line, ⟨m₂, .paused line, true⟩,
      Watcher.recorder.hear seen (Sight.texts quiet) ++ [.line (m₂.view line)]) :=
  (exists_resume_iff he.running).2 (.paused he.traced hruns hquiet hstep rfl)

/-- As long as a watcher accepts what it is shown, the recorder is shown the same. -/
theorem Pauses.recorder {s s' : σ × List Sight} (h : Pauses w.noting k e s e' s')
    (he : e.IsWatched) :
    Pauses .recorder k e s.2 e' s'.2 ∧ e'.IsWatched ∧
      (Sight.views s'.2).length = (Sight.views s.2).length + k := by
  induction h with
  | refl e s => exact ⟨.refl e s.2, he, rfl⟩
  | @resume k fuel line e e₁ e' s s₁ s' hresume h ih =>
    cases stretch_of_resume he.running hresume with
    | @paused _ quiet _ m₂ _ _ _ hruns hquiet hstep hline =>
      have hseen := Except.ok.inj (Watcher.onLine_recorder hline)
      rw [Watcher.hear_noting] at hseen
      obtain ⟨fuel, hfirst⟩ := resume_recorder he hruns hquiet hstep s.2
      rw [hseen] at hfirst
      obtain ⟨hrest, he', hlength⟩ := ih ⟨rfl, rfl⟩
      refine ⟨.resume hfirst hrest, he', ?_⟩
      rw [hlength, ← hseen, Watcher.hear_recorder]
      simp
      omega
    | ended hends _ => rcases hends.outcome_eq with h | ⟨_, h⟩ <;> cases h

/-! ## Untraced runs -/

/-- Without tracing, a step takes notice only of what a watcher does with texts, and tracing does
    not begin. -/
theorem step_untraced {w' : Watcher σ} (hprint : w'.onPrint = w.onPrint) (he : e.traced = false)
    (s : σ) : e.step w' s = e.step w s ∧ (e.step w s).2.1.traced = false := by
  rw [step, step]
  cases e.machine.step with
  | printed text m => exact ⟨by rw [hprint], he⟩
  | next m => exact ⟨rfl, he⟩
  | atLine line m => simp [he]
  | finished m => exact ⟨rfl, rfl⟩
  | faulted fault m => exact ⟨rfl, rfl⟩

/-- Without tracing, only what a watcher does with texts counts. -/
theorem steps_untraced {w' : Watcher σ} (hprint : w'.onPrint = w.onPrint) (he : e.traced = false)
    (fuel : Nat) (s : σ) : e.steps w' fuel s = e.steps w fuel s := by
  induction fuel generalizing e s with
  | zero => rfl
  | succ fuel ih =>
    obtain ⟨hstep, htraced⟩ := step_untraced hprint he s
    rw [steps, steps, hstep]
    split
    next heq => rw [heq] at htraced; exact ih htraced _
    · rfl
    · rfl

/-- No line of an untraced run is shown to a watcher: it does not matter what the watcher would
    make of it. -/
theorem finish_untraced {w' : Watcher σ} (hprint : w'.onPrint = w.onPrint) (he : e.traced = false)
    (fuel stretches : Nat) (s : σ) :
    e.finish w' fuel stretches s = e.finish w fuel stretches s := by
  have hresume : e.resume w' fuel s = e.resume w fuel s := by
    rw [resume, resume]
    split
    · rfl
    · rfl
    all_goals exact steps_untraced (e := { e with control := .running }) hprint he fuel s
  cases stretches with
  | zero => rfl
  | succ stretches =>
    cases hfirst : e.resume w fuel s with
    | none => rw [finish, finish, hresume, hfirst]
    | some result =>
      obtain ⟨outcome, e', s'⟩ := result
      have houtcome := outcome_of_resume he hfirst
      rw [finish_of_resume houtcome hfirst, finish_of_resume houtcome (hresume.trans hfirst)]

/-! ## Transparency -/

/-- A run ends in the same way, at the same machine and with the same texts printed, whether it is
    watched or not; and it ends if it does when it is watched exactly if it does when it is not. -/
theorem finish_noting_iff (code : Code) (maxDepth : Nat) (w : Watcher σ) (s₀ : σ)
    (outcome : Outcome) (e : Execution) (printed : List String) :
    (∃ fuel stretches s, (start code maxDepth true).finish w.noting fuel stretches (s₀, []) =
        some (outcome, e, s) ∧ Sight.texts s.2 = printed) ↔
      ∃ fuel stretches, (start code maxDepth false).finish .recorder fuel stretches [] =
        some (outcome, e, printed.map .text) := by
  rw [exists_finish_iff rfl]
  constructor
  · rintro ⟨fuel, stretches, s, hfinish, rfl⟩
    obtain ⟨sights, m, hends, rfl, rfl⟩ := ends_of_finish rfl hfinish
    refine ⟨sights, m, hends, rfl, ?_⟩
    rw [Watcher.texts_attend_noting, Sight.texts_nil, List.nil_append]
    exact (Watcher.attend_recorder_untraced [] sights).symm
  · rintro ⟨sights, m, hends, rfl, hprinted⟩
    obtain ⟨n, hfinish⟩ := finish_of_ends (e := start code maxDepth true) (w := w.noting)
      (s := (s₀, [])) rfl hends
    refine ⟨n, n, _, hfinish n n (Nat.le_refl n) (Nat.le_refl n), ?_⟩
    have hsame := hprinted.trans (Watcher.attend_recorder_untraced [] sights)
    rw [Watcher.texts_attend_noting, ← Sight.texts_map_text printed, hsame]
    simp

/-- A watcher that fails at a line has been shown the lines that the recorder is shown up to that
    one, and is not shown another one. -/
theorem resume_noting_of_traceFailed {s₀ : σ} {s s' : σ × List Sight} {first e e' : Execution}
    {k fuel : Nat} {failure : TraceFailure} (hfirst : first.IsWatched)
    (hpauses : Pauses w.noting k first (s₀, []) e s)
    (hresume : e.resume w.noting fuel s = some (.traceFailed failure, e', s')) :
    (Sight.views s'.2).length = k ∧
      (∃ view seen, w.onLine view s'.1 = .error failure ∧
        Pauses .recorder (k + 1) first [] ⟨e'.machine, .paused view.line, true⟩ seen ∧
        Sight.views seen = Sight.views s'.2 ++ [view]) ∧
      ∀ w' : Watcher (σ × List Sight), w'.onPrint = w.noting.onPrint → ∀ fuel stretches s,
        e'.finish w' fuel stretches s = e'.finish w.noting fuel stretches s := by
  obtain ⟨hrecorder, he, hlength⟩ := hpauses.recorder hfirst
  cases stretch_of_resume he.running hresume with
  | @traceFailed _ quiet m₁ m₂ line _ _ hruns hquiet hstep hline =>
    obtain ⟨fuel, hlast⟩ := resume_recorder he hruns hquiet hstep s.2
    rw [← Watcher.hear_noting] at hlast
    refine ⟨?_, ⟨m₂.view line, (w.noting.hear s (Sight.texts quiet)).2 ++ [.line (m₂.view line)],
      Watcher.onLine_of_noting_error hline, ?_, by simp⟩,
      fun _ hprint => finish_untraced hprint rfl⟩
    · rw [Watcher.hear_noting, Watcher.hear_recorder]
      simpa using hlength
    · rw [Machine.line_view]
      exact hrecorder.concat hlast
  | ended hends _ => rcases hends.outcome_eq with h | ⟨_, h⟩ <;> cases h

/-- Watching a run changes nothing. Its stretches end as it ends when nobody watches, at the same
    machine and with the same texts printed, and if one of the two ends, the other one does. A
    watcher that fails after `k` lines has accepted the first `k` lines that the recorder is shown
    and has failed at the next one of these. From then on it does not matter what it would make
    of a line. -/
theorem watching_transparent (code : Code) (maxDepth : Nat) (w : Watcher σ) (s₀ : σ) :
    (∀ outcome e printed,
      (∃ fuel stretches s, (start code maxDepth true).finish w.noting fuel stretches (s₀, []) =
          some (outcome, e, s) ∧ Sight.texts s.2 = printed) ↔
        ∃ fuel stretches, (start code maxDepth false).finish .recorder fuel stretches [] =
          some (outcome, e, printed.map .text)) ∧
    ∀ {k fuel e s e' s' failure},
      Pauses w.noting k (start code maxDepth true) (s₀, []) e s →
      e.resume w.noting fuel s = some (.traceFailed failure, e', s') →
      (Sight.views s'.2).length = k ∧
        (∃ view seen, w.onLine view s'.1 = .error failure ∧
          Pauses .recorder (k + 1) (start code maxDepth true) []
            ⟨e'.machine, .paused view.line, true⟩ seen ∧
          Sight.views seen = Sight.views s'.2 ++ [view]) ∧
        ∀ w' : Watcher (σ × List Sight), w'.onPrint = w.noting.onPrint → ∀ fuel stretches s,
          e'.finish w' fuel stretches s = e'.finish w.noting fuel stretches s :=
  ⟨fun outcome e printed => finish_noting_iff code maxDepth w s₀ outcome e printed,
    fun hpauses hresume => resume_noting_of_traceFailed ⟨rfl, rfl⟩ hpauses hresume⟩

/-- A script of two lines that print. -/
def greeting : Program :=
  [.expr 1 (.call (.ident "print") [.str "a"]), .expr 2 (.call (.ident "print") [.str "b"])]

/-- The watcher that accepts one line. -/
def picky : Watcher Nat :=
  ⟨fun _ count => if count = 0 then .ok 1 else .error ⟨"enough"⟩, fun _ count => count⟩

/-- The script prints both texts though the watcher fails at the second line, which is the second
    one of two that the recorder is shown. -/
theorem watching_transparent_picky :
    (∃ e fuel stretches, (start greeting.emit 1 false).finish .recorder fuel stretches [] =
      some (.finished, e, ["a", "b"].map .text)) ∧
    ∃ e s e' s', Pauses picky.noting 1 (start greeting.emit 1 true) (0, []) e s ∧
      e.resume picky.noting 5 s = some (.traceFailed ⟨"enough"⟩, e', s') ∧
      ∃ view seen, Pauses .recorder 2 (start greeting.emit 1 true) []
          ⟨e'.machine, .paused view.line, true⟩ seen ∧
        Sight.views seen = Sight.views s'.2 ++ [view] := by
  obtain ⟨htransparent, hshown⟩ := watching_transparent greeting.emit 1 picky 0
  obtain ⟨e₁, s₁, hfirst⟩ : ∃ e₁ s₁, (start greeting.emit 1 true).resume picky.noting 1 (0, []) =
      some (.paused 1, e₁, s₁) := ⟨_, _, rfl⟩
  obtain ⟨e₂, s₂, hsecond⟩ : ∃ e₂ s₂, e₁.resume picky.noting 5 s₁ =
      some (.traceFailed ⟨"enough"⟩, e₂, s₂) := by
    cases hfirst
    exact ⟨_, _, rfl⟩
  have hpauses : Pauses picky.noting 1 (start greeting.emit 1 true) (0, []) e₁ s₁ :=
    .resume hfirst (.refl e₁ s₁)
  obtain ⟨e, hfinish⟩ : ∃ e, (start greeting.emit 1 true).finish picky.noting 10 3 (0, []) =
      some (.finished, e, _) := ⟨_, rfl⟩
  have hunwatched := (htransparent _ e _).1 ⟨10, 3, _, hfinish, rfl⟩
  refine ⟨⟨e, hunwatched⟩, e₁, s₁, e₂, s₂, hpauses, hsecond, ?_⟩
  obtain ⟨-, ⟨view, seen, -, hrecorder, hviews⟩, -⟩ := hshown hpauses hsecond
  exact ⟨view, seen, hrecorder, hviews⟩

end Execution

end Linewise
