import Linewise.Code.Emission
import Linewise.Proofs.Folding.Watching
import Linewise.Proofs.Syntax.Digits

/-!
# Folding signs is invisible

A script is read without looking at what stands behind a sign, and the signs of numbers are folded
into them afterwards. This does not change the script (`Program.parse_runsAlike`): no sign is folded
into the one integer that has no opposite, and the program is refused, or its code runs, as if the
signs had been left where they are.
-/

namespace Linewise

variable {ι : Type}

mutual

/-- No statement is misplaced by folding signs. -/
theorem Stmt.misplaced?_fold (around : Surroundings) : ∀ stmt : Stmt Int64,
    stmt.fold.misplaced? around = stmt.misplaced? around
  | .branch _ _ body otherwise => by
    rw [Stmt.fold, Stmt.misplaced?, Stmt.misplaced?, Stmt.misplacedIn?_foldBody around body,
      Otherwise.misplaced?_fold around otherwise]
  | .whileLoop _ _ body | .forLoop _ _ _ body => Stmt.misplacedIn?_foldBody around.loop body
  | .define _ _ _ body _ => Stmt.misplacedIn?_foldBody .function body
  | .expr .. | .assign .. | .assignItem .. | .leave .. | .breakLoop _ | .continueLoop _
  | .pass _ => rfl

/-- Folding leaves the misplaced jumps of the arms as they are. -/
theorem Otherwise.misplaced?_fold (around : Surroundings) : ∀ otherwise : Otherwise Int64,
    otherwise.fold.misplaced? around = otherwise.misplaced? around
  | .nothing => rfl
  | .body body => Stmt.misplacedIn?_foldBody around body
  | .arm _ _ body otherwise => by
    rw [Otherwise.fold, Otherwise.misplaced?, Otherwise.misplaced?,
      Stmt.misplacedIn?_foldBody around body, Otherwise.misplaced?_fold around otherwise]

theorem Stmt.misplacedIn?_foldBody (around : Surroundings) : ∀ body : List (Stmt Int64),
    Stmt.misplacedIn? around (Stmt.foldBody body) = Stmt.misplacedIn? around body
  | [] => rfl
  | stmt :: rest => by
    rw [Stmt.foldBody, Stmt.misplacedIn?, Stmt.misplacedIn?, Stmt.misplaced?_fold around stmt,
      Stmt.misplacedIn?_foldBody around rest]

end

namespace Program

variable {limit : Nat} {source : String} {program plain : Program}

/-- No integer of a program is the least one, so each has an opposite. -/
theorem toInt_of_unfolded (h : unfolded limit source = .ok plain) :
    ∀ e ∈ Stmt.exprsOf (Stmt.foldBody plain), ∀ n, .int n ∈ e.nodes →
      -(2 ^ 63 - 1) ≤ n.toInt ∧ n.toInt ≤ 2 ^ 63 - 1 := by
  intro e he n hn
  rw [Stmt.exprsOf_foldBody] at he
  obtain ⟨e, hmem, rfl⟩ := List.mem_map.1 he
  obtain ⟨m, hm, heq⟩ := Expr.exists_int_of_fold hn
  have hnonneg := toInt_nonneg_of_unfolded h e hmem m hm
  have hlt := m.toInt_lt
  have hopp := Expr.HasOpposites.toInt_neg_of_ne (hasOpposites_of_unfolded h e hmem m hm)
  rcases heq with rfl | rfl <;> omega

/-- A program is refused with signs folded as it is without, or the codes that it has run alike. -/
theorem compile_foldBody (h : ∀ e ∈ Stmt.exprsOf plain, e.HasOpposites) :
    (∃ fault, compile (Stmt.foldBody plain) = .error fault ∧ compile plain = .error fault) ∨
      ∃ code code', compile (Stmt.foldBody plain) = .ok code ∧ compile plain = .ok code' ∧
        code.RunsAlike code' := by
  rw [compile, compile, Stmt.misplacedIn?_foldBody]
  cases Stmt.misplacedIn? .outermost plain with
  | some fault => exact .inl ⟨fault, rfl, rfl⟩
  | none =>
    obtain ⟨shift, hweaves⟩ := exists_weaves h
    exact .inr ⟨_, _, rfl, rfl, hweaves.runsAlike⟩

/-- Folding the signs of numbers into them is invisible. The integers of a program are far enough
    from the least one that each sign is folded exactly, and the program is refused as the one that
    keeps its signs is, or it runs alike. -/
theorem parse_runsAlike (h : parse limit source = .ok program) :
    ∃ plain, unfolded limit source = .ok plain ∧ program = Stmt.foldBody plain ∧
      (∀ e ∈ Stmt.exprsOf program, ∀ n, .int n ∈ e.nodes →
        -(2 ^ 63 - 1) ≤ n.toInt ∧ n.toInt ≤ 2 ^ 63 - 1) ∧
      (∀ e ∈ Stmt.exprsOf plain, ∀ operand n, .unary .neg operand ∈ e.nodes →
        operand.fold = .int n → (-n).toInt = -n.toInt) ∧
      ((∃ fault, compile program = .error fault ∧ compile plain = .error fault) ∨
        ∃ code code', compile program = .ok code ∧ compile plain = .ok code' ∧
          code.RunsAlike code') := by
  obtain ⟨plain, hplain, rfl⟩ := exists_unfolded_of_parse h
  have hopp := hasOpposites_of_unfolded hplain
  exact ⟨plain, hplain, rfl, toInt_of_unfolded hplain,
    fun e he operand n hmem hfold => (hopp e he).toInt_neg hmem hfold, compile_foldBody hopp⟩

/-- A function with a number that has a sign, and a call with one that has two. -/
def opposites : Program :=
  [.define 1 "f" ["x"] [.leave 2 (some (.binary .sub (.ident "x") (.unary .neg (.int 3))))] 0,
    .expr 3 (.call (.ident "print") [.call (.ident "f") [.unary .neg (.unary .neg (.int 1))]])]

/-- The program has two instructions more when it keeps the signs of its script. Whoever takes notes
    is told the same. -/
theorem parse_runsAlike_opposites :
    ∃ code code',
      parse 20 "def f(x) \x7b\nreturn x - -(3) \x7d\nprint(f(--1))" =
          .ok (Stmt.foldBody opposites) ∧
        compile (Stmt.foldBody opposites) = .ok code ∧ compile opposites = .ok code' ∧
        code'.instrs.length = code.instrs.length + 2 ∧
        (Execution.start code' 2 true).Gives .recorder []
          [.paused 1, .paused 3, .paused 2, .finished]
          [.line 1 "<module>" 1 .empty,
            .line 3 "<module>" 1 (Bindings.empty.insert "f" "<function f>"),
            .line 2 "f" 2 (Bindings.empty.insert "x" "1"), .text "4"]
          (Bindings.empty.insert "f" "<function f>") := by
  have hplain : unfolded 20 "def f(x) \x7b\nreturn x - -(3) \x7d\nprint(f(--1))" =
      .ok opposites := by
    unfold opposites
    cbv
  have hparse : parse 20 "def f(x) \x7b\nreturn x - -(3) \x7d\nprint(f(--1))" =
      .ok (Stmt.foldBody opposites) := by
    rw [parse, hplain]
    rfl
  obtain ⟨plain, hplain', -, -, -, ⟨fault, hfault, -⟩ | ⟨code, code', hcode, hcode', halike⟩⟩ :=
    parse_runsAlike hparse
  · cases hfault
  · obtain rfl : opposites = plain := Except.ok.inj (hplain.symm.trans hplain')
    cases hcode
    cases hcode'
    -- It is enough to run the folded code: four stretches, each up to the next line or the end.
    refine ⟨_, _, hparse, rfl, rfl, rfl,
      (halike.gives Watcher.isDiscreet_recorder 2 true [] _ _ _).1 ?_⟩
    refine ⟨?e, ?s, ?_, ?_, ?_⟩
    rotate_left 2
    · refine .resume 20 rfl ?_
      refine .resume 20 rfl ?_
      refine .resume 20 rfl ?_
      refine .resume 20 rfl ?_
      exact .refl _ _
    · rfl
    · rfl

end Program

end Linewise
