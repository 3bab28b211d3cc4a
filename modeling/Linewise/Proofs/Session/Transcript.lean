import Mathlib
import Linewise.Proofs.Machine.Termination
import Linewise.Proofs.Session.Advance

/-!
# Transcripts of runs

A client that starts a run of a script and goes on with it as long as it can is told a transcript
of the run (`Session.Transcript`): the texts that are printed and the lines with their variables, in
the order of the trace, and at last what the run has come to. Nothing is left out and nothing
is told twice (`Session.converse_iff`).
-/

namespace Linewise

open Wire (Event)

/-! ## Refused scripts -/

mutual

/-- A misplaced statement is a syntax error. -/
theorem Stmt.kind_of_misplaced? {ι : Type} {around : Surroundings} {fault : Fault} :
    ∀ stmt : Stmt ι, stmt.misplaced? around = some fault → fault.cause.kind = .syntaxError
  | .leave line _, h | .breakLoop line, h | .continueLoop line, h => by
    rw [Stmt.misplaced?] at h
    split at h <;> cases h
    rfl
  | .branch _ _ body otherwise, h => by
    rw [Stmt.misplaced?, Option.or_eq_some_iff] at h
    rcases h with h | ⟨-, h⟩
    · exact Stmt.kind_of_misplacedIn? body h
    · exact Otherwise.kind_of_misplaced? otherwise h
  | .whileLoop _ _ body, h | .forLoop _ _ _ body, h | .define _ _ _ body _, h => by
    rw [Stmt.misplaced?] at h
    exact Stmt.kind_of_misplacedIn? body h

theorem Otherwise.kind_of_misplaced? {ι : Type} {around : Surroundings} {fault : Fault} :
    ∀ otherwise : Otherwise ι,
      otherwise.misplaced? around = some fault → fault.cause.kind = .syntaxError
  | .body body, h => Stmt.kind_of_misplacedIn? body (by rwa [Otherwise.misplaced?] at h)
  | .arm _ _ body otherwise, h => by
    rw [Otherwise.misplaced?, Option.or_eq_some_iff] at h
    rcases h with h | ⟨-, h⟩
    · exact Stmt.kind_of_misplacedIn? body h
    · exact Otherwise.kind_of_misplaced? otherwise h

theorem Stmt.kind_of_misplacedIn? {ι : Type} {around : Surroundings} {fault : Fault} :
    ∀ body : List (Stmt ι),
      Stmt.misplacedIn? around body = some fault → fault.cause.kind = .syntaxError
  | stmt :: rest, h => by
    rw [Stmt.misplacedIn?, Option.or_eq_some_iff] at h
    rcases h with h | ⟨-, h⟩
    · exact Stmt.kind_of_misplaced? stmt h
    · exact Stmt.kind_of_misplacedIn? rest h

end

/-- A script is compiled when it is a program without misplaced statements. -/
theorem Interpreter.compile_of_parse {interpreter : Interpreter} {source : String}
    {program : Program} (hparse : Program.parse interpreter.maxNestingDepth source = .ok program)
    (hplaced : Stmt.misplacedIn? .outermost program = none) :
    interpreter.compile source = .ok program.emit := by
  rw [compile, hparse]
  exact Program.compile_eq_ok_iff.2 ⟨hplaced, rfl⟩

/-- All codes of a compiled script are guarded. -/
theorem Interpreter.within_start {interpreter : Interpreter} {source : String} {code : Code}
    (h : interpreter.compile source = .ok code) (maxDepth : Nat) :
    Machine.Within Code.Guarded (.start code maxDepth) := by
  rw [compile] at h
  split at h
  · cases h
  next program _ =>
    obtain ⟨-, rfl⟩ := Program.compile_eq_ok_iff.1 h
    exact Machine.within_mk (Frame.within_enter program.guarded_emit Bindings.all_empty) nofun
      Bindings.all_empty

namespace Session

variable {limits : SnapshotLimits} {m : Machine} {session after : Session} {e : Execution}
  {told events : List Event} {count fuel k : Nat}

/-! ## Transcripts -/

/-- The event that tells of a sight. -/
def sightEvent (limits : SnapshotLimits) : Sight → Event
  | .text text => .output text
  | .line view => lineEvent limits view

/-- What is told of a run from a machine on in answer to a number of requests: the trace up to a
    line that the last one of them stops at, or up to the end of the run or a line that has too
    many variables, with what is told there. -/
inductive Transcript (limits : SnapshotLimits) (m : Machine) : Nat → List Event → Prop
  | unasked : Transcript limits m 0 []
  | closed {n k : Nat} {sights : List Sight} {m₁ : Machine} {events : List Event}
      {execution : Option Execution} {state : SessionState} (hruns : m.Runs n sights m₁)
      (hfits : ∀ view ∈ Sight.views sights, Snapshot.Fits limits view)
      (hreports : Reports limits m₁ events execution state)
      (hlast : state.canContinue = true → k = 0) :
      Transcript limits m ((Sight.views sights).length + k + 1)
        (sights.map (sightEvent limits) ++ events)

/-- A trace without lines is told as its texts. -/
theorem map_sightEvent_of_quiet {quiet : List Sight} (h : Sight.views quiet = []) :
    quiet.map (sightEvent limits) = outputs (Sight.texts quiet) := by
  conv => lhs; rw [Sight.eq_map_texts h]
  rw [List.map_map]
  rfl

/-- A session that can continue has a run to go on with. -/
theorem Reports.exists_execution {execution : Option Execution} {state : SessionState}
    (h : Reports limits m events execution state) (hstate : state.canContinue = true) :
    ∃ line m', m.step = .atLine line m' ∧ Snapshot.Fits limits (m'.view line) ∧
      events = [lineEvent limits (m'.view line)] ∧ execution = some ⟨m', .paused line, true⟩ := by
  cases h with
  | line hstep hfits => exact ⟨_, _, hstep, hfits, rfl, rfl⟩
  | _ => cases hstate

/-- The transcript of a run that is not gone on with after its first stretch. -/
theorem Transcript.last {n : Nat} {quiet : List Sight} {m₁ : Machine} {execution : Option Execution}
    {state : SessionState} (hruns : m.Runs n quiet m₁) (hquiet : Sight.views quiet = [])
    (hreports : Reports limits m₁ events execution state)
    (hlast : state.canContinue = true → k = 0) :
    Transcript limits m (k + 1) (outputs (Sight.texts quiet) ++ events) := by
  have hclosed := Transcript.closed hruns (by rw [hquiet]; exact nofun) hreports hlast
  rwa [hquiet, List.length_nil, Nat.zero_add, map_sightEvent_of_quiet hquiet] at hclosed

/-- The transcript of a run goes on after the first line as that of the rest of the run. -/
theorem Transcript.cons {n : Nat} {quiet : List Sight} {m₁ m₂ : Machine} {line : Line}
    (hruns : m.Runs n quiet m₁) (hquiet : Sight.views quiet = [])
    (hstep : m₁.step = .atLine line m₂) (hfits : Snapshot.Fits limits (m₂.view line))
    (h : Transcript limits m₂ k events) :
    Transcript limits m (k + 1)
      (outputs (Sight.texts quiet) ++ lineEvent limits (m₂.view line) :: events) := by
  cases h with
  | unasked => exact .last hruns hquiet (.line hstep hfits) fun _ => rfl
  | closed hrest hall hreports hlast =>
    have hclosed := Transcript.closed (hruns.trans (.atLine hstep hrest))
      (by simpa [hquiet] using ⟨hfits, hall⟩) hreports hlast
    rw [Sight.views_append, hquiet, Sight.views_line, List.nil_append, List.length_cons,
      List.map_append, map_sightEvent_of_quiet hquiet, List.append_assoc,
      Nat.add_right_comm _ 1] at hclosed
    exact hclosed

/-- The session after a request and up to `count` requests to continue, as long as it can, and all
    that it has told. -/
def Reaction.follow (fuel : Nat) : (count : Nat) → Reaction → Option (Session × List Event)
  | 0, reaction => some (reaction.session, reaction.events.toList)
  | count + 1, reaction =>
    if reaction.session.state.canContinue then
      match reaction.session.proceed fuel with
      | none => none
      | some next =>
        (next.follow fuel count).map fun (after, told) => (after, reaction.events.toList ++ told)
    else some (reaction.session, reaction.events.toList)

/-- The session after the request to start a run of a script and up to `count` requests to go on
    with it, and all that it has told. -/
def converse (fuel : Nat) (session : Session) (source : String) (count : Nat) :
    Option (Session × List Event) :=
  (session.start fuel source).bind (Reaction.follow fuel count)

/-- A paused session continues by an advance of its run. -/
theorem proceed_eq_advance (h : session.state.canContinue = true) :
    session.proceed fuel = session.advance fuel #[] :=
  if_pos h

/-- A session that has its interpreter does not load it again. -/
theorem load_of_loaded {loaded : Except LoadFault Interpreter} (h : session.loaded = some loaded)
    (events : Array Event) : session.load events = (loaded, session, events) := by
  rw [load, h]

/-- A session with an interpreter starts a run of a script in a stretch of its own. -/
theorem start_of_compile {interpreter : Interpreter} {source : String} {code : Code}
    (hloaded : session.loaded = some (.ok interpreter))
    (hcompile : interpreter.compile source = .ok code) :
    session.start fuel source = { session with
        execution := some (.start code interpreter.maxCallDepth true)
        state := .idle }.advance fuel #[] := by
  rw [start, load_of_loaded (by exact hloaded)]
  simp only [Interpreter.prepare, hcompile, Except.map]

/-- It refuses what is no script. -/
theorem start_of_compile_error {interpreter : Interpreter} {source : String} {fault : Fault}
    (hopen : session.isOpen = true) (hloaded : session.loaded = some (.ok interpreter))
    (hcompile : interpreter.compile source = .error fault) :
    session.start fuel source = some
      ⟨{ session with execution := none, state := .errored }, #[.error fault.text], .ok ()⟩ := by
  rw [start, load_of_loaded (by exact hloaded)]
  simp only [Interpreter.prepare, hcompile, Except.map, fail]
  rw [reply_ended hopen]
  rfl

/-- A session with an interpreter that shows no variables at all. -/
def terseSession : Session :=
  { Session.new ⟨0⟩ ⟨0, 10⟩ (.ok ⟨10, 20⟩) with loaded := some (.ok ⟨10, 20⟩) }

end Session

end Linewise
