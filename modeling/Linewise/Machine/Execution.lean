import Linewise.Machine.Step

/-!
# Executions

An execution is a run that somebody may watch. The watcher is told of every text that is printed
and, while the execution is *traced*, is shown every line that is about to run: the run is
suspended there if the watcher accepts the view, and goes on untraced when it cannot.

How a watcher works is up to it: it is a pair of functions on a state of its own (`Watcher`).
-/

namespace Linewise

/-- Why a watcher could not accept a view. -/
structure TraceFailure where
  reason : String
  deriving DecidableEq

/-- The text that users see of a trace failure. -/
def TraceFailure.text (failure : TraceFailure) : String :=
  s!"TraceCaptureError: {failure.reason}"

/-- A watcher with states from `σ`. -/
structure Watcher (σ : Type) where
  /-- A line is about to run: the new state, or why the view cannot be accepted. -/
  onLine : FrameView → σ → Except TraceFailure σ
  /-- A text was printed. -/
  onPrint : String → σ → σ

/-- How far a run has come. -/
inductive Control
  | running
  /-- The run was suspended before a line. -/
  | paused (line : Line)
  | done
  | faulted (fault : Fault)
  deriving DecidableEq

/-- Why a stretch of a run ended. -/
inductive Outcome
  | paused (line : Line)
  | finished
  | faulted (fault : Fault)
  /-- The watcher failed. The run can be taken up again, untraced. -/
  | traceFailed (failure : TraceFailure)
  deriving DecidableEq

/-- A run, how far it has come and whether it is traced. -/
structure Execution where
  machine : Machine
  control : Control
  traced : Bool

namespace Execution

/-- An execution of a code that has not begun. -/
def start (code : Code) (maxDepth : Nat) (traced : Bool) : Execution :=
  ⟨.start code maxDepth, .running, traced⟩

/-- The line that the run is suspended before. -/
def pausedLine? (e : Execution) : Option Line :=
  match e.control with
  | .paused line => some line
  | _ => none

/-- The run is over. -/
def isTerminated (e : Execution) : Bool :=
  match e.control with
  | .done | .faulted _ => true
  | _ => false

/-- The innermost frame as it was last seen. -/
def view? (e : Execution) : Option FrameView :=
  match e.machine.frames with
  | [] => none
  | frame :: _ => some (e.machine.view frame.line)

variable {σ : Type}

/-- One instruction: why the stretch ends with it, unless it goes on, and what has become of the
    execution and of the watcher's state. -/
def step (w : Watcher σ) (e : Execution) (s : σ) : Option Outcome × Execution × σ :=
  match e.machine.step with
  | .next m => (none, { e with machine := m }, s)
  | .printed text m => (none, { e with machine := m }, w.onPrint text s)
  | .atLine line m =>
    if e.traced then
      match w.onLine (m.view line) s with
      | .ok s => (some (.paused line), { e with machine := m }, s)
      | .error failure => (some (.traceFailed failure), { e with machine := m, traced := false }, s)
    else (none, { e with machine := m }, s)
  | .finished m => (some .finished, ⟨m, .done, false⟩, s)
  | .faulted fault m => (some (.faulted fault), ⟨m, .faulted fault, false⟩, s)

/-- Steps until a stretch ends, `none` when it takes more than `fuel` of them. -/
def steps (w : Watcher σ) : (fuel : Nat) → Execution → σ → Option (Outcome × Execution × σ)
  | 0, _, _ => none
  | fuel + 1, e, s =>
    match e.step w s with
    | (none, e, s) => e.steps w fuel s
    | (some (.paused line), e, s) => some (.paused line, { e with control := .paused line }, s)
    | (some outcome, e, s) => some (outcome, e, s)

/-- The next stretch of a run: up to the next pause, the end of the run or a failure of the
    watcher. A run that is over stays as it is and gives its outcome again. -/
def resume (w : Watcher σ) (fuel : Nat) (e : Execution) (s : σ) :
    Option (Outcome × Execution × σ) :=
  match e.control with
  | .faulted fault => some (.faulted fault, e, s)
  | .done => some (.finished, e, s)
  | .running | .paused _ => { e with control := .running }.steps w fuel s

/-- The rest of a run, through at most `stretches` stretches of at most `fuel` steps each. -/
def finish (w : Watcher σ) (fuel : Nat) :
    (stretches : Nat) → Execution → σ → Option (Outcome × Execution × σ)
  | 0, _, _ => none
  | stretches + 1, e, s =>
    match e.resume w fuel s with
    | some (.paused _, e, s) | some (.traceFailed _, e, s) => e.finish w fuel stretches s
    | result => result

end Execution

end Linewise
