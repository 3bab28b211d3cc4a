import Linewise.Machine.Execution

/-!
# Traces

A run of the machine shows the texts that it prints and the lines that are about to run (`Sight`),
whether anybody looks or not. All that it shows, in order, is its trace:

* `Machine.Runs`: a run of `n` steps from one machine to another, with its trace;
* `Machine.Ends`: a run up to its end, with its trace and its outcome.

A machine has one run of each length and at most one end (`Machine.Runs.unique`,
`Machine.Ends.unique`).
-/

namespace Linewise

/-- What a run shows. -/
inductive Sight
  /-- A text was printed. -/
  | text (text : String)
  /-- A line is about to run. -/
  | line (view : FrameView)

namespace Sight

/-- The text that was printed. -/
def text? : Sight → Option String
  | text printed => some printed
  | line _ => none

/-- What is seen of the line that is about to run. -/
def view? : Sight → Option FrameView
  | text _ => none
  | line view => some view

/-- The texts in a trace. -/
def texts (sights : List Sight) : List String := sights.filterMap text?

/-- The lines in a trace. -/
def views (sights : List Sight) : List FrameView := sights.filterMap view?

@[simp] theorem texts_nil : texts [] = [] := rfl
@[simp] theorem views_nil : views [] = [] := rfl

variable {text : String} {view : FrameView} {sights rest : List Sight}

@[simp] theorem texts_text : texts (.text text :: rest) = text :: texts rest := rfl
@[simp] theorem texts_line : texts (.line view :: rest) = texts rest := rfl
@[simp] theorem views_text : views (.text text :: rest) = views rest := rfl
@[simp] theorem views_line : views (.line view :: rest) = view :: views rest := rfl

@[simp]
theorem texts_append : texts (sights ++ rest) = texts sights ++ texts rest :=
  List.filterMap_append

@[simp]
theorem views_append : views (sights ++ rest) = views sights ++ views rest :=
  List.filterMap_append

@[simp]
theorem texts_map_text (printed : List String) : texts (printed.map .text) = printed := by
  induction printed with
  | nil => rfl
  | cons text printed ih => rw [List.map_cons, texts_text, ih]

@[simp]
theorem views_map_text (printed : List String) : views (printed.map .text) = [] := by
  induction printed with
  | nil => rfl
  | cons text printed ih => exact ih

/-- A trace without lines is texts alone. -/
theorem eq_map_texts (h : views sights = []) : sights = (texts sights).map .text := by
  induction sights with
  | nil => rfl
  | cons sight rest ih =>
    cases sight with
    | text text => rw [texts_text, List.map_cons, ← ih h]
    | line view => cases h

end Sight

namespace Machine

/-! ## Steps -/

namespace Progress

/-- What a step shows. -/
def sights : Progress → List Sight
  | printed text _ => [.text text]
  | atLine line m => [.line (m.view line)]
  | next _ | finished _ | faulted _ _ => []

/-- The machine that a run goes on with. -/
def next? : Progress → Option Machine
  | next m | printed _ m | atLine _ m => some m
  | finished _ | faulted _ _ => none

/-- How a run ends, and the machine that it ends with. -/
def outcome? : Progress → Option (Outcome × Machine)
  | next _ | printed _ _ | atLine _ _ => none
  | finished m => some (.finished, m)
  | faulted fault m => some (.faulted fault, m)

/-- A run that ends does not go on. -/
theorem next?_of_outcome? {progress : Progress} {r : Outcome × Machine}
    (h : progress.outcome? = some r) : progress.next? = none := by
  cases progress with
  | finished m => rfl
  | faulted fault m => rfl
  | _ => cases h

/-- A run that ends has finished or faulted. -/
theorem eq_of_outcome? {progress : Progress} {outcome : Outcome} {m : Machine}
    (h : progress.outcome? = some (outcome, m)) :
    (outcome = .finished ∧ progress = .finished m) ∨
      ∃ fault, outcome = .faulted fault ∧ progress = .faulted fault m := by
  cases progress with
  | finished m => cases h; exact .inl ⟨rfl, rfl⟩
  | faulted fault m => cases h; exact .inr ⟨fault, rfl, rfl⟩
  | _ => cases h

/-- A step that a run goes on with is at a line, or shows none. -/
theorem quiet_or_atLine {progress : Progress} {m : Machine} (h : progress.next? = some m) :
    Sight.views progress.sights = [] ∨ ∃ line, progress = .atLine line m := by
  cases progress with
  | next m' | printed text m' => exact .inl rfl
  | atLine line m' => cases h; exact .inr ⟨line, rfl⟩
  | finished m' | faulted fault m' => cases h

end Progress

/-! ## Runs -/

/-- A run of `n` steps leads from one machine to another and shows some sights. -/
inductive Runs : Nat → Machine → List Sight → Machine → Prop
  | refl (m : Machine) : Runs 0 m [] m
  | head {n : Nat} {m m' m'' : Machine} {sights : List Sight} (hstep : m.step.next? = some m')
      (h : Runs n m' sights m'') : Runs (n + 1) m (m.step.sights ++ sights) m''

/-- A run comes to an end, and has shown some sights. -/
def Ends (m : Machine) (sights : List Sight) (outcome : Outcome) (m' : Machine) : Prop :=
  ∃ n m₁, Runs n m sights m₁ ∧ m₁.step.outcome? = some (outcome, m')

variable {m m' m₁ m₂ : Machine} {n k : Nat} {sights sights' rest : List Sight} {line : Line}
  {outcome outcome' : Outcome} {text : String}

/-- What is seen when a line is about to run says which line it is. -/
theorem line_view (m : Machine) (line : Line) : (m.view line).line = line := by
  rw [view]
  split <;> rfl

theorem Runs.next (hstep : m.step = .next m₁) (h : Runs n m₁ sights m') :
    Runs (n + 1) m sights m' := by
  have hruns := Runs.head (congrArg Progress.next? hstep) h
  rwa [hstep] at hruns

theorem Runs.printed (hstep : m.step = .printed text m₁) (h : Runs n m₁ sights m') :
    Runs (n + 1) m (.text text :: sights) m' := by
  have hruns := Runs.head (congrArg Progress.next? hstep) h
  rwa [hstep] at hruns

theorem Runs.atLine (hstep : m.step = .atLine line m₁) (h : Runs n m₁ sights m') :
    Runs (n + 1) m (.line (m₁.view line) :: sights) m' := by
  have hruns := Runs.head (congrArg Progress.next? hstep) h
  rwa [hstep] at hruns

/-- One run after another is a run. -/
theorem Runs.trans (h : Runs n m sights m₁) (h' : Runs k m₁ rest m') :
    Runs (n + k) m (sights ++ rest) m' := by
  induction h with
  | refl => rwa [Nat.zero_add]
  | head hstep _ ih =>
    rw [Nat.add_right_comm, List.append_assoc]
    exact .head hstep (ih h')

/-- A run and one more line. -/
theorem Runs.concat (h : Runs n m sights m₁) (hstep : m₁.step = .atLine line m₂) :
    Runs (n + 1) m (sights ++ [.line (m₂.view line)]) m₂ :=
  h.trans (.atLine hstep (.refl m₂))

/-- A run of so many steps is determined by where it begins. -/
theorem Runs.unique (h : Runs n m sights m') (h' : Runs n m sights' m₂) :
    sights = sights' ∧ m' = m₂ := by
  induction h generalizing sights' m₂ with
  | refl => cases h'; exact ⟨rfl, rfl⟩
  | head hstep _ ih =>
    cases h' with
    | head hstep' h' =>
      obtain rfl := Option.some.inj (hstep.symm.trans hstep')
      obtain ⟨rfl, rfl⟩ := ih h'
      exact ⟨rfl, rfl⟩

/-- A longer run goes on from where a shorter one has led to. -/
theorem Runs.split (h : Runs n m sights m₁) (h' : Runs (n + k) m sights' m') :
    ∃ rest, sights' = sights ++ rest ∧ Runs k m₁ rest m' := by
  induction h generalizing sights' with
  | refl => exact ⟨sights', rfl, by rwa [Nat.zero_add] at h'⟩
  | head hstep _ ih =>
    rw [Nat.add_right_comm] at h'
    cases h' with
    | head hstep' h' =>
      obtain rfl := Option.some.inj (hstep.symm.trans hstep')
      obtain ⟨rest, rfl, hrest⟩ := ih h'
      exact ⟨rest, (List.append_assoc ..).symm, hrest⟩

/-- A run that shows a line is quiet up to the first one. -/
theorem Runs.quiet_or (h : Runs n m sights m') :
    Sight.views sights = [] ∨ ∃ k j quiet m₁ line m₂ rest, n = k + 1 + j ∧ Runs k m quiet m₁ ∧
      Sight.views quiet = [] ∧ m₁.step = .atLine line m₂ ∧ Runs j m₂ rest m' ∧
        sights = quiet ++ .line (m₂.view line) :: rest := by
  induction h with
  | refl => exact .inl rfl
  | @head n m m₁ m' sights hstep h ih =>
    rcases Progress.quiet_or_atLine hstep with hsilent | ⟨line, hline⟩
    · -- The first line of the run is that of what follows.
      rw [Sight.views_append, hsilent, List.nil_append]
      refine ih.imp id ?_
      rintro ⟨k, j, quiet, m₂, line, m₃, rest, rfl, hruns, hquiet, hline, hrest, rfl⟩
      have hlonger : Sight.views (m.step.sights ++ quiet) = [] := by
        rw [Sight.views_append, hsilent, hquiet, List.nil_append]
      exact ⟨k + 1, j, m.step.sights ++ quiet, m₂, line, m₃, rest, by omega, .head hstep hruns,
        hlonger, hline, hrest, (List.append_assoc ..).symm⟩
    · rw [hline]
      exact .inr ⟨0, n, [], m, line, m₁, sights, by rw [Nat.zero_add, Nat.add_comm], .refl m, rfl,
        hline, h, rfl⟩

/-! ## Ends -/

/-- A run that leads to one that ends, ends too. -/
theorem Runs.ends (h : Runs n m sights m₁) (h' : m₁.Ends rest outcome m') :
    m.Ends (sights ++ rest) outcome m' := by
  obtain ⟨k, m₂, hruns, hend⟩ := h'
  exact ⟨n + k, m₂, h.trans hruns, hend⟩

/-- A line in front of a run that ends is the first thing the run shows. -/
theorem Ends.atLine (hstep : m.step = .atLine line m₁) (h : m₁.Ends rest outcome m') :
    m.Ends (.line (m₁.view line) :: rest) outcome m' :=
  (Runs.atLine hstep (.refl m₁)).ends h

/-- A run is not longer than one that has come to an end. -/
theorem Runs.le_of_outcome? {r : Outcome × Machine} (h : Runs n m sights m₁)
    (hend : m₁.step.outcome? = some r) (h' : Runs k m sights' m') : k ≤ n := by
  refine Nat.le_of_not_lt fun hlt => ?_
  obtain ⟨j, rfl⟩ := Nat.exists_eq_add_of_lt hlt
  obtain ⟨rest, -, hrest⟩ := h.split (k := j + 1) h'
  cases hrest with
  | head hstep _ =>
    rw [Progress.next?_of_outcome? hend] at hstep
    cases hstep

/-- A run has one end. -/
theorem Ends.unique (h : m.Ends sights outcome m') (h' : m.Ends sights' outcome' m₂) :
    sights = sights' ∧ outcome = outcome' ∧ m' = m₂ := by
  obtain ⟨n, m₃, hruns, hend⟩ := h
  obtain ⟨k, m₄, hruns', hend'⟩ := h'
  have hle := hruns.le_of_outcome? hend hruns'
  have hge := hruns'.le_of_outcome? hend' hruns
  obtain rfl := Nat.le_antisymm hge hle
  obtain ⟨rfl, rfl⟩ := hruns.unique hruns'
  cases hend.symm.trans hend'
  exact ⟨rfl, rfl, rfl⟩

/-- A run only ends by finishing or by a fault. -/
theorem Ends.outcome_eq (h : m.Ends sights outcome m') :
    outcome = .finished ∨ ∃ fault, outcome = .faulted fault := by
  obtain ⟨-, m₁, -, hend⟩ := h
  rcases Progress.eq_of_outcome? hend with ⟨hfinished, -⟩ | ⟨fault, hfaulted, -⟩
  · exact .inl hfinished
  · exact .inr ⟨fault, hfaulted⟩

/-- A run that ends and shows a line is quiet up to the first one, and ends from there. -/
theorem Ends.quiet_or (h : m.Ends sights outcome m') :
    Sight.views sights = [] ∨ ∃ k quiet m₁ line m₂ rest, Runs k m quiet m₁ ∧
      Sight.views quiet = [] ∧ m₁.step = .atLine line m₂ ∧ m₂.Ends rest outcome m' ∧
        sights = quiet ++ .line (m₂.view line) :: rest := by
  obtain ⟨n, m₃, hruns, hend⟩ := h
  refine hruns.quiet_or.imp id ?_
  rintro ⟨k, j, quiet, m₁, line, m₂, rest, -, hquiet, hviews, hstep, hrest, rfl⟩
  exact ⟨k, quiet, m₁, line, m₂, rest, hquiet, hviews, hstep, ⟨j, m₃, hrest, hend⟩, rfl⟩

end Machine

end Linewise
