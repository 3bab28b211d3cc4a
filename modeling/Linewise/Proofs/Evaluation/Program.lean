import Mathlib
import Linewise.Proofs.Evaluation.Call
import Linewise.Proofs.Syntax.Parse

/-!
# Programs on the machine

The code of a program does on the machine what the program means: it runs to an end exactly when
the evaluation of the program does, and then with the same outcome, the same texts printed and
the same global bindings (`Program.resume_iff_evaluate`). Faults have the same line, too, in scripts
whose lines can all be numbered.
-/

namespace Linewise

namespace Stage

/-- The next step ends the run, with the globals of a world and what has been printed in it. -/
def FinishesWith (b : Stage) (w : World) : Prop :=
  ∃ m, b.machine.step = .finished m ∧ m.globals = w.globals.map Value.code ∧
    b.printed = w.printed

end Stage

/-- A script ends after its last instruction. -/
theorem Site.finishesWith {p : Site} {w : World} (hmodule : p.code.isModule = true)
    (hend : p.code.instrs[p.next]? = none) : (p.stage w).FinishesWith w := by
  refine ⟨p.machine w, ?_, rfl, rfl⟩
  simp only [stage, Machine.step, machine, frame, hend, hmodule, if_true]

/-- A run and an evaluation end alike: both finish, or both fault for the same cause, and on the
    same line where lines are tracked. -/
inductive Outcome.Agrees (tracked : Prop) : Outcome → Except Fault Unit → Prop
  | finished : Agrees tracked .finished (.ok ())
  | faulted {fault fault' : Fault} (h : fault.Agrees tracked fault') :
    Agrees tracked (.faulted fault) (.error fault')

namespace Program

variable {tracked : Prop} {program : Program} {maxDepth fuel : Nat}

/-- The run of a code from its start realizes the evaluation of the program. -/
theorem realizes_evaluate (hlegal : Legal .outermost program)
    (hascends : tracked → Ascending program) (maxDepth fuel : Nat) :
    (⟨.start program.emit maxDepth, []⟩ : Stage).Realizes tracked fuel
      (fun _ w b => b.FinishesWith w) (program.evaluate maxDepth fuel) := by
  have hcode : program.emit.Holds 0 (Stmt.emitAll none 0 0 program) :=
    program.emit.holds_instrs
  let p : Site := ⟨program.emit, [], maxDepth, none, 0, [], 0, []⟩
  have hlegal : Legal (p.around none) program := hlegal
  refine .bind (Stmt.realizes_execAll program (w := ⟨.empty, []⟩)
    (callsRealized tracked fuel p.room) ⟨rfl, nofun⟩ Bindings.all_empty hlegal hascends
    (fun _ => .inl rfl) hcode) ?_
  rintro ⟨exit, scope⟩ w b ⟨-, hisSome, -, line, -, hleads⟩
  cases exit with
  | through =>
    obtain rfl := hleads
    have hend : program.emit.instrs[0 + Stmt.codeSizeOf none 0 program]? = none := by
      simp [emit]
    exact .pure (Site.finishesWith rfl hend)
  -- The script is no function and stands in no loop, so nothing else can end it.
  | leaves v => exact nomatch hisSome.symm.trans hleads.2.1
  | breaks => obtain ⟨_, ⟨⟩, -⟩ := hleads
  | continues => obtain ⟨_, ⟨⟩, -⟩ := hleads

variable {σ : Type} {watcher : Watcher σ} {s : σ} {result : Except Fault Unit} {w : World}

/-- A run from the start of a code ends as the evaluation of the program does. -/
theorem resume_of_evaluate (hlegal : Legal .outermost program)
    (hascends : tracked → Ascending program)
    (h : program.evaluate maxDepth fuel = some (result, w)) :
    ∃ n outcome e, (Execution.start program.emit maxDepth false).resume watcher n s =
        some (outcome, e, watcher.hear s w.printed) ∧
      outcome.Agrees tracked result ∧ e.machine.globals = w.globals.map Value.code := by
  have hrealizes := realizes_evaluate hlegal hascends maxDepth fuel
  rw [h] at hrealizes
  cases result with
  | ok _ =>
    obtain ⟨n, b, hsteps, m, hm, hglobals, hprinted⟩ := hrealizes
    refine ⟨n + 1, .finished, ⟨m, .done, false⟩, ?_, .finished, hglobals⟩
    refine (Execution.steps_eq_of_steps hsteps 1 rfl rfl).trans ?_
    simp only [Execution.steps, Execution.step, hm, hprinted]
  | error fault =>
    obtain ⟨n, b, hsteps, fault', m, hm, hagrees, hglobals, hprinted⟩ := hrealizes
    refine ⟨n + 1, .faulted fault', ⟨m, .faulted fault', false⟩, ?_, .faulted hagrees, hglobals⟩
    refine (Execution.steps_eq_of_steps hsteps 1 rfl rfl).trans ?_
    simp only [Execution.steps, Execution.step, hm, hprinted]

/-- An evaluation has an end when it has as much fuel as a run that ends has steps. -/
theorem evaluate_ne_none {n : Nat} {r : Outcome × Execution × σ} (hlegal : Legal .outermost program)
    (h : (Execution.start program.emit maxDepth false).resume watcher n s = some r) :
    program.evaluate maxDepth n ≠ none := by
  intro hnone
  -- Where an evaluation has an end at all has nothing to do with lines.
  have hascends : False → Ascending program := nofun
  have hrealizes := realizes_evaluate hlegal hascends maxDepth n
  rw [hnone] at hrealizes
  obtain ⟨k, b, hsteps, hk⟩ := hrealizes
  exact nomatch h.symm.trans (Execution.steps_eq_none_of_steps (s := s) hsteps hk rfl rfl)

/-- Compiling a program does not change its meaning. For a program that was read from a text and
    has a code, the run of the code from its start ends exactly when the evaluation of the program
    does. Then the two end alike, both finishing or both with a fault of the same cause, and a fault
    has the same line if the text has fewer than `2 ^ 32` lines. The global bindings are the same,
    with the codes of definitions for these, and the same texts have been printed. -/
theorem resume_iff_evaluate {limit : Nat} {source : String} {code : Code}
    (hparse : parse limit source = .ok program) (hcompile : program.compile = .ok code) :
    ((∃ n r, (Execution.start code maxDepth false).resume watcher n s = some r) ↔
      ∃ fuel r, program.evaluate maxDepth fuel = some r) ∧
    ∀ {n outcome e s' fuel result w},
      (Execution.start code maxDepth false).resume watcher n s = some (outcome, e, s') →
      program.evaluate maxDepth fuel = some (result, w) →
        outcome.Agrees (Syntax.lineCount source < UInt32.size) result ∧
        e.machine.globals = w.globals.map Value.code ∧ s' = watcher.hear s w.printed := by
  have hlegal := isLegal_of_parse hparse hcompile
  obtain ⟨-, rfl⟩ := compile_eq_ok_iff.1 hcompile
  have hresume : ∀ {fuel result w}, program.evaluate maxDepth fuel = some (result, w) →
      ∃ n outcome e, (Execution.start program.emit maxDepth false).resume watcher n s =
          some (outcome, e, watcher.hear s w.printed) ∧
        outcome.Agrees (Syntax.lineCount source < UInt32.size) result ∧
        e.machine.globals = w.globals.map Value.code :=
    resume_of_evaluate hlegal (ascending_of_parse hparse)
  refine ⟨⟨fun ⟨n, r, h⟩ => ?_, fun ⟨fuel, ⟨result, w⟩, h⟩ => ?_⟩, fun {n} _ _ _ _ _ _ hrun h => ?_⟩
  · exact ⟨n, Option.ne_none_iff_exists'.1 (evaluate_ne_none hlegal h)⟩
  · obtain ⟨n, outcome, e, hrun, -, -⟩ := hresume h
    exact ⟨n, _, hrun⟩
  · obtain ⟨n', outcome, e, hrun', hagrees, hglobals⟩ := hresume h
    -- Both runs are one: they agree on as many steps as the longer one has.
    have heq := (Execution.steps_mono (Nat.le_max_left n n') hrun).symm.trans
      (Execution.steps_mono (Nat.le_max_right n n') hrun')
    cases heq
    exact ⟨hagrees, hglobals, rfl⟩

/-- The program of a script that prints what a function of its own gives back, and then uses a name
    that is bound nowhere. -/
def echo : Program :=
  [.define 1 "f" ["n"] [.leave 1 (some (.ident "n"))] 0,
    .expr 1 (.call (.ident "print") [.call (.ident "f") [.int 1]]), .expr 2 (.ident "g")]

/-- Where `echo` may have two frames, a run of its code prints what its evaluation does and has the
    same fault on the same line. -/
theorem resume_iff_evaluate_echo :
    parse 20 "def f(n) \x7b return n \x7d; print(f(1))\ng" = .ok echo ∧
      echo.compile = .ok echo.emit ∧
      ∃ n e fault, (Execution.start echo.emit 2 false).resume
          ⟨fun _ texts => .ok texts, fun text texts => texts ++ [text]⟩ n [] =
            some (.faulted fault, e, ["1"]) ∧
        fault.cause = .unbound "g" ∧ fault.line = some 2 ∧
        e.machine.globals = .ofList [("f",
          .function (Definition.code ⟨1, "f", ["n"], [.leave 1 (some (.ident "n"))], 0⟩))] := by
  have hparse : parse 20 "def f(n) \x7b return n \x7d; print(f(1))\ng" = .ok echo := by cbv
  obtain ⟨w, hevaluate, hprinted, hglobals⟩ : ∃ w, echo.evaluate 2 0 =
      some (.error (.onLine (.unbound "g") 2), w) ∧ w.printed = ["1"] ∧ w.globals = .ofList [("f",
        .function ⟨1, "f", ["n"], [.leave 1 (some (.ident "n"))], 0⟩)] := ⟨_, rfl, rfl, rfl⟩
  obtain ⟨⟨-, hends⟩, hagrees⟩ := @resume_iff_evaluate echo 2 _
    ⟨fun _ texts => .ok texts, fun text texts => texts ++ [text]⟩ [] _ _ _ hparse rfl
  obtain ⟨n, ⟨outcome, e, s'⟩, hrun⟩ := hends ⟨0, _, hevaluate⟩
  obtain ⟨houtcome, hsame, rfl⟩ := hagrees hrun hevaluate
  cases houtcome with
  | @faulted fault _ h =>
    rw [hprinted] at hrun
    refine ⟨hparse, rfl, n, e, fault, hrun, h.cause, h.line (by decide), ?_⟩
    rw [hsame, hglobals]
    rfl

end Program

end Linewise
