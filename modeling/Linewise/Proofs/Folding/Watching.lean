import Linewise.Proofs.Folding.Machine
import Linewise.Proofs.Machine.Transparency
import Linewise.Session.Basic

/-!
# Runs that look alike

What users see of a run are the texts that it prints and its lines, with values as they are
displayed (`Sight.shown`). Two codes run alike (`Code.RunsAlike`) when

* their runs show the same;
* a watcher that does not look into functions (`Watcher.IsDiscreet`) is told the same in every
  stretch, and every stretch ends in the same way. The watcher of a session is one of these
  (`Session.isDiscreet_watcher`);
* the runs end in the same way whatever a watcher does.

The code with signs folded and the code as it stands run alike (`Code.Weaves.runsAlike`).
-/

namespace Linewise

variable {σ : Type}

/-! ## What is seen of a run -/

/-- What users see of a run. -/
inductive Shown
  | text (text : String)
  /-- A line is about to run, in a function, so many calls deep, and with these bindings. -/
  | line (line : Line) (function : String) (depth : Nat) (bindings : Bindings String)

/-- What users see of a sight. -/
def Sight.shown : Sight → Shown
  | text printed => .text printed
  | line view => .line view.line view.function view.depth (view.bindings.map Value.display)

/-- The global bindings as users see them. -/
def Machine.shownGlobals (m : Machine) : Bindings String := m.globals.map Value.display

/-- The code without its instructions. -/
def Code.outline (code : Code) : Code := { code with instrs := [] }

/-- The view without the instructions of functions. -/
def FrameView.outline (view : FrameView) : FrameView :=
  { view with bindings := view.bindings.map (Value.map Code.outline) }

/-- Two answers of a watcher are alike: both accept a line, with states that are alike, or both do
    not, for the same reason. -/
def AlikeAnswers (alike : σ → σ → Prop) : Except TraceFailure σ → Except TraceFailure σ → Prop
  | .ok s, .ok s' => alike s s'
  | .error failure, .error failure' => failure = failure'
  | _, _ => False

/-- States of a watcher stay alike when it is told the same up to the instructions of functions, and
    its answers are alike. -/
structure Watcher.Overlooks (w : Watcher σ) (alike : σ → σ → Prop) : Prop where
  refl (s : σ) : alike s s
  onPrint {s s' : σ} (text : String) (h : alike s s') :
    alike (w.onPrint text s) (w.onPrint text s')
  onLine {s s' : σ} {view view' : FrameView} (hview : view.outline = view'.outline)
    (h : alike s s') : AlikeAnswers alike (w.onLine view s) (w.onLine view' s')

/-- What the watcher answers does not depend on the instructions of functions, neither of those that
    it is shown nor of those that it has been shown. -/
def Watcher.IsDiscreet (w : Watcher σ) : Prop := ∃ alike, w.Overlooks alike

/-- The sight without the instructions of functions. -/
def Sight.outline : Sight → Sight
  | text printed => .text printed
  | line view => .line view.outline

/-- Who only takes notes is discreet. -/
theorem Watcher.isDiscreet_recorder : recorder.IsDiscreet := by
  refine ⟨fun seen seen' => seen.map Sight.outline = seen'.map Sight.outline, fun _ => rfl,
    fun text h => ?_, fun hview h => ?_⟩
  · rw [recorder, List.map_append, List.map_append, h]
  · rw [recorder, AlikeAnswers, List.map_append, List.map_append, h, List.map_cons, List.map_cons,
      Sight.outline, Sight.outline, hview]

theorem Code.keepsHandles_outline : KeepsHandles Code.outline := ⟨fun _ => rfl, fun _ => rfl⟩

/-- A snapshot shows no instructions of functions. -/
theorem Snapshot.capture_outline (limits : SnapshotLimits) (view : FrameView) :
    capture limits view.outline = capture limits view := by
  have hsize : view.outline.bindings.size = view.bindings.size := List.length_map _
  have hdisplay : display limits.maxValueLen ∘ Value.map Code.outline =
      display limits.maxValueLen :=
    funext fun v => congrArg (truncate limits.maxValueLen)
      (Value.display_map Code.keepsHandles_outline v)
  rw [capture, capture, hsize, FrameView.outline, Bindings.map_map, hdisplay]

/-- The watcher of a session is discreet: values are told as they are displayed. -/
theorem Session.isDiscreet_watcher (session : Session) : session.watcher.IsDiscreet := by
  refine ⟨Eq, fun _ => rfl, fun text h => h ▸ rfl, ?_⟩
  rintro events _ view view' hview rfl
  have hline : view.outline.line = view'.outline.line := congrArg FrameView.line hview
  have hcapture : Snapshot.capture session.limits view = Snapshot.capture session.limits view' := by
    rw [← Snapshot.capture_outline, hview, Snapshot.capture_outline]
  have hanswer : session.watcher.onLine view events = session.watcher.onLine view' events := by
    unfold watcher
    dsimp only
    rw [hcapture, show view.line = view'.line from hline]
  rw [hanswer]
  cases session.watcher.onLine view' events <;> rfl

/-! ## Stretches and ends -/

namespace Execution

/-- Some stretches of an execution, which end in the given ways. -/
inductive Stretches (w : Watcher σ) : List Outcome → Execution → σ → Execution → σ → Prop
  | refl (e : Execution) (s : σ) : Stretches w [] e s e s
  | resume (fuel : Nat) {outcome : Outcome} {outcomes : List Outcome} {e e₁ e' : Execution}
      {s s₁ s' : σ} (hresume : e.resume w fuel s = some (outcome, e₁, s₁))
      (h : Stretches w outcomes e₁ s₁ e' s') : Stretches w (outcome :: outcomes) e s e' s'

/-- An execution that somebody watches makes stretches that end in the given ways. All in all the
    watcher is told the given things, except for a line that it does not accept, and the global
    bindings are the given ones at last. -/
def Gives (e : Execution) (w : Watcher σ) (s₀ : σ) (outcomes : List Outcome) (told : List Shown)
    (globals : Bindings String) : Prop :=
  ∃ e' s', Stretches w.noting outcomes e (s₀, []) e' s' ∧ s'.2.map Sight.shown = told ∧
    e'.machine.shownGlobals = globals

/-- An execution that somebody watches comes to its end, with these texts printed and these global
    bindings. -/
def Finishes (e : Execution) (w : Watcher σ) (s₀ : σ) (outcome : Outcome) (printed : List String)
    (globals : Bindings String) : Prop :=
  ∃ fuel stretches e' s', e.finish w.noting fuel stretches (s₀, []) = some (outcome, e', s') ∧
    Sight.texts s'.2 = printed ∧ e'.machine.shownGlobals = globals

end Execution

/-- A run of a machine shows some things, one after the other. -/
def Machine.Shows (m : Machine) (shown : List Shown) : Prop :=
  ∃ n sights m', m.Runs n sights m' ∧ sights.map Sight.shown = shown

/-- The runs of two codes look alike. -/
structure Code.RunsAlike (code code' : Code) : Prop where
  /-- They show the same, be it forever. -/
  shows (maxDepth : Nat) (shown : List Shown) :
    (Machine.start code maxDepth).Shows shown ↔ (Machine.start code' maxDepth).Shows shown
  /-- Their stretches are the same for a watcher that does not look into functions. -/
  gives {σ : Type} {w : Watcher σ} (hw : w.IsDiscreet) (maxDepth : Nat) (traced : Bool) (s₀ : σ)
    (outcomes : List Outcome) (told : List Shown) (globals : Bindings String) :
    (Execution.start code maxDepth traced).Gives w s₀ outcomes told globals ↔
      (Execution.start code' maxDepth traced).Gives w s₀ outcomes told globals
  /-- They end in the same way whatever a watcher does. -/
  finishes {σ : Type} (w : Watcher σ) (maxDepth : Nat) (traced : Bool) (s₀ : σ) (outcome : Outcome)
    (printed : List String) (globals : Bindings String) :
    (Execution.start code maxDepth traced).Finishes w s₀ outcome printed globals ↔
      (Execution.start code' maxDepth traced).Finishes w s₀ outcome printed globals

/-! ## Both sides of what is seen -/

theorem Bindings.map_display_on (bindings : Bindings (Value Foldable)) (side : Side) :
    (bindings.map (Value.on side)).map Value.display = bindings.map Value.display := by
  rw [Bindings.map_map]
  exact congrArg bindings.map (funext (Value.display_map side.keepsHandles_code))

@[simp]
theorem TwinMachine.shownGlobals_on (t : TwinMachine) (side : Side) :
    (t.on side).shownGlobals = t.globals.map Value.display :=
  t.globals.map_display_on side

/-- Apart from instructions of functions, the same is seen on both sides. -/
theorem TwinView.outline_on (view : TwinView) (side side' : Side) :
    (view.on side).outline = (view.on side').outline := by
  have hcode : ∀ side side' : Side, Code.outline ∘ side.code = Code.outline ∘ side'.code := by
    rintro (_ | _) (_ | _) <;> rfl
  have hvalue : Value.map Code.outline ∘ Value.on side =
      Value.map Code.outline ∘ Value.on side' := by
    funext v
    simp only [Function.comp_apply, Value.on, Value.map_map, hcode side side']
  simp only [FrameView.outline, TwinView.on, Bindings.map_map, hvalue]

namespace TwinSight

/-- What users see of a sight. -/
def shown : TwinSight → Shown
  | text printed => .text printed
  | line view => .line view.line view.function view.depth (view.bindings.map Value.display)

theorem shown_on (sight : TwinSight) (side : Side) : (sight.on side).shown = sight.shown := by
  cases sight with
  | text printed => rfl
  | line view => exact congrArg (Shown.line _ _ _) (view.bindings.map_display_on side)

@[simp]
theorem map_shown_on (seen : List TwinSight) (side : Side) :
    (seen.map (on side)).map Sight.shown = seen.map shown := by
  rw [List.map_map]
  exact congrArg seen.map (funext fun sight => sight.shown_on side)

/-- The text that was printed. -/
def text? : TwinSight → Option String
  | text printed => some printed
  | line _ => none

@[simp]
theorem texts_on (seen : List TwinSight) (side : Side) :
    Sight.texts (seen.map (on side)) = seen.filterMap text? := by
  rw [Sight.texts, List.filterMap_map]
  exact congrArg seen.filterMap (funext fun sight => by cases sight <;> rfl)

theorem views_on_eq_nil (seen : List TwinSight) (side side' : Side)
    (h : Sight.views (seen.map (on side)) = []) : Sight.views (seen.map (on side')) = [] := by
  rw [Sight.views, List.filterMap_map, List.filterMap_eq_nil_iff] at h ⊢
  intro sight hsight
  have hside := h sight hsight
  cases sight with
  | text printed => rfl
  | line view => cases hside

end TwinSight

/-! ## Watchers of both sides -/

/-- The states of a watcher on both sides, and what it has been told. -/
structure TwinState (alike : σ → σ → Prop) where
  state : Side → σ
  alike (side side' : Side) : alike (state side) (state side')
  seen : List TwinSight

/-- The state of a watcher on a side, and the note of what it has been told. -/
def TwinState.on {alike : σ → σ → Prop} (side : Side) (s : TwinState alike) : σ × List Sight :=
  (s.state side, s.seen.map (TwinSight.on side))

/-- Answers that are alike on both sides are failures for one reason, or states that are alike. -/
theorem exists_answer {alike : σ → σ → Prop} {answer : Side → Except TraceFailure σ}
    (h : ∀ side side', AlikeAnswers alike (answer side) (answer side')) :
    (∃ failure, ∀ side, answer side = .error failure) ∨
      ∃ states : Side → σ, (∀ side, answer side = .ok (states side)) ∧
        ∀ side side', alike (states side) (states side') := by
  -- All answers are alike, so one of them tells whether there is a failure.
  cases hfolded : answer .folded with
  | error failure =>
    refine .inl ⟨failure, fun side => ?_⟩
    have hside := h .folded side
    rw [hfolded] at hside
    cases hanswer : answer side with
    | error failure' => rw [hanswer] at hside; rw [show failure = failure' from hside]
    | ok s => rw [hanswer] at hside; exact hside.elim
  | ok s =>
    have hok : ∀ side, ∃ s', answer side = .ok s' := by
      intro side
      have hside := h .folded side
      rw [hfolded] at hside
      cases hanswer : answer side with
      | error failure => rw [hanswer] at hside; exact hside.elim
      | ok s' => exact ⟨s', rfl⟩
    choose states hstates using hok
    refine .inr ⟨states, hstates, fun side side' => ?_⟩
    have hboth := h side side'
    rwa [hstates, hstates] at hboth

namespace Watcher.Overlooks

variable {w : Watcher σ} {alike : σ → σ → Prop}

/-- A watcher overlooks the difference also when it is told texts. -/
theorem hear {s s' : σ} (hw : w.Overlooks alike) (h : alike s s') (texts : List String) :
    alike (w.hear s texts) (w.hear s' texts) := by
  induction texts generalizing s s' with
  | nil => exact h
  | cons text texts ih => exact ih (hw.onPrint text h)

/-- Texts are heard on both sides. -/
theorem exists_hear (hw : w.Overlooks alike) (s : TwinState alike) (texts : List String) :
    ∃ s' : TwinState alike, ∀ side, w.noting.hear (s.on side) texts = s'.on side := by
  refine ⟨⟨fun side => w.hear (s.state side) texts,
    fun side side' => hw.hear (s.alike side side') texts, s.seen ++ texts.map .text⟩,
    fun side => ?_⟩
  have hnoting : ∀ (s : σ) (seen : List Sight),
      w.noting.hear (s, seen) texts = (w.hear s texts, seen ++ texts.map .text) := by
    induction texts with
    | nil => intro s seen; rw [List.map_nil, List.append_nil]; rfl
    | cons text texts ih =>
      intro s seen
      rw [hear_cons, List.map_cons, List.append_cons]
      exact ih _ _
  rw [TwinState.on, hnoting, TwinState.on, List.map_append, List.map_map]
  rfl

/-- A line is answered in the same way on both sides. -/
theorem exists_onLine (hw : w.Overlooks alike) (s : TwinState alike) (view : TwinView) :
    ∃ answer : Except TraceFailure (TwinState alike),
      ∀ side, w.noting.onLine (view.on side) (s.on side) = answer.map (TwinState.on side) := by
  have halike : ∀ side side', AlikeAnswers alike (w.onLine (view.on side) (s.state side))
      (w.onLine (view.on side') (s.state side')) :=
    fun side side' => hw.onLine (view.outline_on side side') (s.alike side side')
  rcases exists_answer halike with ⟨failure, hfailure⟩ | ⟨states, hstates, hstatesAlike⟩
  · refine ⟨.error failure, fun side => ?_⟩
    rw [onLine_noting, TwinState.on, hfailure]
    rfl
  · refine ⟨.ok ⟨states, hstatesAlike, s.seen ++ [.line view]⟩, fun side => ?_⟩
    rw [onLine_noting, TwinState.on, hstates]
    simp [Except.map, TwinState.on, TwinSight.on]

end Watcher.Overlooks

/-! ## Executions on both sides -/

/-- An execution on both sides. -/
structure TwinExecution where
  machine : TwinMachine
  control : Control
  traced : Bool

/-- The execution on a side. -/
def TwinExecution.on (side : Side) (x : TwinExecution) : Execution :=
  ⟨x.machine.on side, x.control, x.traced⟩

namespace TwinExecution

open Execution (Stretch Stretches)

variable {x : TwinExecution} {w : Watcher σ} {alike : σ → σ → Prop} {s : TwinState alike}
  {side : Side} {outcome : Outcome} {e' : Execution} {s' : σ × List Sight}

/-- The next line that one side comes to is the next one on both sides. -/
theorem nextLine {t : TwinMachine} {n : Nat} {sights : List Sight} {m₁ m₂ : Machine} {line : Line}
    (hruns : (t.on side).Runs n sights m₁) (hquiet : Sight.views sights = [])
    (hstep : m₁.step = .atLine line m₂) :
    ∃ (seen : List TwinSight) (t₂ : TwinMachine), sights = seen.map (TwinSight.on side) ∧
      m₂ = t₂.on side ∧
        ∀ side', (t.on side').Reaches (seen.map (TwinSight.on side')) (.atLine line (t₂.on side')) ∧
          Sight.views (seen.map (TwinSight.on side')) = [] := by
  obtain ⟨seen, p, rfl, hp, hboth⟩ := TwinMachine.reaches ⟨_, _, hruns, hstep⟩ nofun
  cases p with
  | atLine line' t₂ =>
    obtain ⟨rfl, rfl⟩ := Machine.Progress.atLine.inj hp
    exact ⟨seen, t₂, rfl, rfl, fun side' =>
      ⟨hboth side', TwinSight.views_on_eq_nil seen side side' hquiet⟩⟩
  | _ => cases hp

/-- A stretch on one side is one on both. -/
theorem stretch (hw : w.Overlooks alike)
    (h : Stretch w.noting (x.machine.on side) x.traced (s.on side) outcome e' s') :
    ∃ (x' : TwinExecution) (s₁ : TwinState alike), e' = x'.on side ∧ s' = s₁.on side ∧
      ∀ side', Stretch w.noting (x.machine.on side') x.traced (s.on side') outcome (x'.on side')
        (s₁.on side') := by
  cases h with
  | paused htraced hruns hquiet hstep hline =>
    obtain ⟨seen, t₂, rfl, rfl, hboth⟩ := nextLine hruns hquiet hstep
    obtain ⟨view, hview⟩ := t₂.exists_view _
    obtain ⟨heard, hheard⟩ := hw.exists_hear s (seen.filterMap TwinSight.text?)
    -- The watcher hears the same texts on both sides and sees the same line, so its answers are
    -- alike.
    obtain ⟨answer, hanswer⟩ := hw.exists_onLine heard view
    rw [TwinSight.texts_on, hheard, hview, hanswer] at hline
    cases answer with
    | error failure => cases hline
    | ok s₁ =>
      cases hline
      refine ⟨⟨t₂, .paused _, true⟩, s₁, rfl, rfl, fun side' => ?_⟩
      obtain ⟨⟨n', m', hruns', hstep'⟩, hquiet'⟩ := hboth side'
      refine .paused htraced hruns' hquiet' hstep' ?_
      rw [TwinSight.texts_on, hheard, hview, hanswer]
      rfl
  | traceFailed htraced hruns hquiet hstep hline =>
    obtain ⟨seen, t₂, rfl, rfl, hboth⟩ := nextLine hruns hquiet hstep
    obtain ⟨view, hview⟩ := t₂.exists_view _
    obtain ⟨heard, hheard⟩ := hw.exists_hear s (seen.filterMap TwinSight.text?)
    obtain ⟨answer, hanswer⟩ := hw.exists_onLine heard view
    rw [TwinSight.texts_on, hheard] at hline ⊢
    rw [hview, hanswer] at hline
    cases answer with
    | ok s₁ => cases hline
    | error failure =>
      cases hline
      refine ⟨⟨t₂, .running, false⟩, heard, rfl, rfl, fun side' => ?_⟩
      obtain ⟨⟨n', m', hruns', hstep'⟩, hquiet'⟩ := hboth side'
      have hfailed := Stretch.traceFailed (w := w.noting) (s := s.on side') htraced hruns'
        hquiet' hstep' (by rw [TwinSight.texts_on, hheard, hview, hanswer]; rfl)
      rwa [TwinSight.texts_on, hheard] at hfailed
  | ended hends hquiet =>
    obtain ⟨seen, t', rfl, rfl, hboth⟩ := TwinMachine.ends hends
    obtain ⟨heard, hheard⟩ := hw.exists_hear s (seen.filterMap TwinSight.text?)
    rw [TwinSight.texts_on, hheard]
    refine ⟨⟨t', outcome.control, false⟩, heard, rfl, rfl, fun side' => ?_⟩
    have hended := Stretch.ended (w := w.noting) (s := s.on side') (hboth side')
      fun htraced => TwinSight.views_on_eq_nil seen side side' (hquiet htraced)
    rwa [TwinSight.texts_on, hheard] at hended

/-- A stretch on one side has one like it on the other, which needs its own number of steps. -/
theorem resume {fuel : Nat} (hw : w.Overlooks alike)
    (h : (x.on side).resume w.noting fuel (s.on side) = some (outcome, e', s')) :
    ∃ (x' : TwinExecution) (s₁ : TwinState alike), e' = x'.on side ∧ s' = s₁.on side ∧
      ∀ side', ∃ fuel', (x.on side').resume w.noting fuel' (s.on side') =
        some (outcome, x'.on side', s₁.on side') := by
  obtain ⟨t, control, traced⟩ := x
  cases control with
  | done | faulted fault =>
    cases h
    exact ⟨⟨t, _, traced⟩, s, rfl, rfl, fun _ => ⟨0, rfl⟩⟩
  | running | paused line =>
    have hstretch := Execution.stretch_of_resume rfl h
    obtain ⟨x', s₁, rfl, rfl, hboth⟩ := stretch (x := ⟨t, _, traced⟩) hw hstretch
    exact ⟨x', s₁, rfl, rfl, fun side' => (Execution.exists_resume_iff rfl).2 (hboth side')⟩

/-- Stretches on one side are stretches on both. -/
theorem stretches {outcomes : List Outcome} (hw : w.Overlooks alike)
    (h : Stretches w.noting outcomes (x.on side) (s.on side) e' s') :
    ∃ (x' : TwinExecution) (s₁ : TwinState alike), e' = x'.on side ∧ s' = s₁.on side ∧
      ∀ side', Stretches w.noting outcomes (x.on side') (s.on side') (x'.on side')
        (s₁.on side') := by
  induction outcomes generalizing x s with
  | nil =>
    cases h
    exact ⟨x, s, rfl, rfl, fun side' => .refl _ _⟩
  | cons outcome outcomes ih =>
    cases h with
    | resume fuel hresume hrest =>
      obtain ⟨x₁, s₁, rfl, rfl, hfirst⟩ := resume hw hresume
      obtain ⟨x', s', rfl, rfl, hboth⟩ := ih hrest
      refine ⟨x', s', rfl, rfl, fun side' => ?_⟩
      obtain ⟨fuel', hresume'⟩ := hfirst side'
      exact .resume fuel' hresume' (hboth side')

/-- What a watcher that does not look into functions is told on one side it is told on both. -/
theorem gives {s₀ : σ} {outcomes : List Outcome} {told : List Shown} {globals : Bindings String}
    (hw : w.IsDiscreet) (h : (x.on side).Gives w s₀ outcomes told globals) (side' : Side) :
    (x.on side').Gives w s₀ outcomes told globals := by
  obtain ⟨alike, hw⟩ := hw
  obtain ⟨e', s', hstretches, htold, hglobals⟩ := h
  let s : TwinState alike := ⟨fun _ => s₀, fun _ _ => hw.refl s₀, []⟩
  obtain ⟨x', s₁, rfl, rfl, hboth⟩ := stretches (s := s) hw hstretches
  refine ⟨_, _, hboth side', ?_, ?_⟩
  · rw [← htold, TwinState.on, TwinState.on, TwinSight.map_shown_on, TwinSight.map_shown_on]
  · rw [← hglobals, on, on, TwinMachine.shownGlobals_on, TwinMachine.shownGlobals_on]

/-- What a watcher makes of lines does not matter for the end of a run. -/
theorem finishes {s₀ : σ} {printed : List String} {globals : Bindings String}
    (hx : x.control = .running) (h : (x.on side).Finishes w s₀ outcome printed globals)
    (side' : Side) : (x.on side').Finishes w s₀ outcome printed globals := by
  have hrunning : ∀ side, (x.on side).isTerminated = false := by
    intro side
    rw [Execution.isTerminated, show (x.on side).control = .running from hx]
  obtain ⟨fuel, stretches, e', s', hfinish, htexts, hglobals⟩ := h
  obtain ⟨sights, m', hends, rfl, rfl⟩ := Execution.ends_of_finish (hrunning side) hfinish
  obtain ⟨seen, t', rfl, rfl, hboth⟩ := TwinMachine.ends hends
  obtain ⟨n, hfinish'⟩ := Execution.finish_of_ends (w := w.noting) (s := (s₀, []))
    (hrunning side') (hboth side')
  refine ⟨n, n, _, _, hfinish' n n (Nat.le_refl n) (Nat.le_refl n), ?_, ?_⟩
  · rw [← htexts, Watcher.texts_attend_noting, Watcher.texts_attend_noting, TwinSight.texts_on,
      TwinSight.texts_on]
  · rw [← hglobals, TwinMachine.shownGlobals_on, TwinMachine.shownGlobals_on]

end TwinExecution

/-! ## Codes on both sides -/

/-- A machine that is about to run the first instruction of a code on both sides. -/
def TwinMachine.start {code code' : Code} {shift : Nat → Nat} (h : Code.Weaves shift code code')
    (maxDepth : Nat) : TwinMachine :=
  ⟨[.enter h .empty], .empty, maxDepth⟩

/-- What is shown on one side is shown on the other. -/
theorem TwinMachine.shows {t : TwinMachine} {side : Side} {shown : List Shown}
    (h : (t.on side).Shows shown) (side' : Side) : (t.on side').Shows shown := by
  obtain ⟨n, sights, m, hruns, rfl⟩ := h
  obtain ⟨seen, t', rfl, hboth, -⟩ := TwinMachine.runs hruns
  obtain ⟨n', hruns'⟩ := hboth side'
  exact ⟨n', _, _, hruns', by rw [TwinSight.map_shown_on, TwinSight.map_shown_on]⟩

/-- The code with signs folded and the code as it stands run alike. -/
theorem Code.Weaves.runsAlike {code code' : Code} {shift : Nat → Nat}
    (h : Code.Weaves shift code code') : Code.RunsAlike code code' := by
  have hfolded : ∀ maxDepth, (TwinMachine.start h maxDepth).on .folded = .start code maxDepth :=
    fun _ => rfl
  have hplain : ∀ maxDepth, (TwinMachine.start h maxDepth).on .plain = .start code' maxDepth := by
    intro maxDepth
    simp only [TwinMachine.on, TwinMachine.start, List.map_cons, TwinFrame.on_enter]
    rfl
  let x (maxDepth : Nat) (traced : Bool) : TwinExecution :=
    ⟨TwinMachine.start h maxDepth, .running, traced⟩
  have hx : ∀ maxDepth traced, (x maxDepth traced).on .folded = .start code maxDepth traced :=
    fun _ _ => rfl
  have hx' : ∀ maxDepth traced, (x maxDepth traced).on .plain = .start code' maxDepth traced :=
    fun maxDepth traced => congrArg (Execution.mk · .running traced) (hplain maxDepth)
  refine ⟨fun maxDepth shown => ?_, fun hw maxDepth traced s₀ outcomes told globals => ?_,
    fun w maxDepth traced s₀ outcome printed globals => ?_⟩
  · rw [← hfolded, ← hplain]
    exact ⟨fun h => TwinMachine.shows h _, fun h => TwinMachine.shows h _⟩
  · rw [← hx, ← hx']
    exact ⟨fun h => TwinExecution.gives hw h _, fun h => TwinExecution.gives hw h _⟩
  · rw [← hx, ← hx']
    exact ⟨fun h => TwinExecution.finishes rfl h _, fun h => TwinExecution.finishes rfl h _⟩

end Linewise
