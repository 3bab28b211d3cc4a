import Linewise.Proofs.Evaluation.Program
import Linewise.Proofs.Literal.Grammar
import Linewise.Proofs.Machine.Stretch

/-!
# Literals read back

What a literal is displayed as inside of a list is a script text for the same value. A script that
assigns the text to a name is read (`Value.IsLiteral.parse_eq_ok`), means that the name is bound to
the value (`Value.IsLiteral.exists_evaluate`), and does so when it runs
(`Value.IsLiteral.finish_readback`).
-/

namespace Linewise

/-- A program that ends without a fault finishes in every run of its code, traced or not and
    whoever watches it, with the global bindings that it ends with. -/
theorem Program.finish_of_evaluate {program : Program} {maxDepth fuel : Nat} {world : World}
    (hlegal : Legal .outermost program)
    (h : program.evaluate maxDepth fuel = some (.ok (), world)) (traced : Bool) {σ : Type}
    (watcher : Watcher σ) (s : σ) : ∃ n e s', (∀ fuel stretches, n ≤ fuel → n ≤ stretches →
        (Execution.start program.emit maxDepth traced).finish watcher fuel stretches s =
          some (.finished, e, s')) ∧
      e.machine.globals = world.globals.map Value.code := by
  -- A program that finishes has no fault, so its lines need not ascend.
  have hascends : False → Ascending program := nofun
  obtain ⟨_, outcome, e, hresume, hends, hglobals⟩ : ∃ n outcome e,
      (Execution.start program.emit maxDepth false).resume watcher n s =
          some (outcome, e, watcher.hear s world.printed) ∧
        outcome.Agrees False (.ok ()) ∧ e.machine.globals = world.globals.map Value.code :=
    resume_of_evaluate hlegal hascends h
  cases hends
  have hstretch := Execution.stretch_of_resume rfl hresume
  -- The run that is not traced has one stretch, and the other one takes the same steps.
  generalize watcher.hear s world.printed = heard at hstretch
  cases hstretch with
  | ended hends _ =>
    obtain ⟨n, hfinish⟩ := Execution.finish_of_ends (w := watcher) (s := s)
      (e := Execution.start program.emit maxDepth traced) rfl hends
    exact ⟨n, _, _, hfinish, hglobals⟩

namespace Value

/-- The script that assigns what is written of a value to `x`. -/
def readback {φ : Type} [FunctionHandle φ] (v : Value φ) : String := "x = " ++ v.repr

/-! ## Reading -/

section Reading

variable {φ : Type} [FunctionHandle φ] {v : Value φ} {most limit : Nat}

theorem toList_readback (v : Value φ) :
    v.readback.toList = 'x' :: ' ' :: '=' :: ' ' :: v.repr.toList := by
  rw [readback, String.toList_append]
  rfl

/-- The check of the nesting finds nothing when the limit is beyond the lists of a literal. -/
theorem IsLiteral.excess?_readback (h : v.IsLiteral most) (hlt : most < limit) :
    Syntax.Nesting.excess? limit v.readback = Option.none := by
  have hstart : ∀ cs : List Char, Syntax.Nesting.excessFrom limit 0 ⟨0, 0⟩ 1
      ('x' :: ' ' :: '=' :: ' ' :: cs) = Syntax.Nesting.excessFrom limit 0 ⟨0, 0⟩ 1 cs := fun cs =>
    ((excessFrom_cons (by decide) (Nat.zero_le _)).trans
      (excessFrom_cons (by decide) (Nat.zero_le _))).trans
      ((excessFrom_cons (by decide) (Nat.zero_le _)).trans
        (excessFrom_cons (by decide) (Nat.zero_le _)))
  have hrepr : Syntax.Nesting.excessFrom limit 0 ⟨0, 0⟩ 1 (v.repr.toList ++ []) = Option.none :=
    h.excessFrom_repr ((Nat.zero_add most).symm ▸ hlt) follows_nil
  rw [List.append_nil] at hrepr
  rw [Syntax.Nesting.excess?, toList_readback, hstart, hrepr]

theorem tokens_assignment (cs : List Char) : Syntax.tokens ('x' :: ' ' :: '=' :: ' ' :: cs) =
    .ident "x" :: .symbol .assign :: Syntax.tokens cs := by
  rw [Syntax.tokens_cons 'x']
  exact congrArg _ ((Syntax.tokens_cons ' ' _).trans ((Syntax.tokens_cons '=' _).trans
    (congrArg _ (Syntax.tokens_cons ' ' cs))))

/-- The lexemes of the script stand on its only line. -/
theorem IsLiteral.map_fst_scan (h : v.IsLiteral most) :
    (Syntax.scan v.readback).map Prod.fst = Syntax.lexemesAt 1 0 (v.assigned "x") := by
  have hline : '\n' ∉ v.readback.toList := by
    simpa [toList_readback] using h.newline_notMem_repr
  have htokens := h.tokens_repr follows_nil
  rw [List.append_nil] at htokens
  rw [Syntax.scan, Syntax.map_fst_scanFrom hline, List.drop_zero, toList_readback,
    tokens_assignment, htokens]
  rfl

/-- A script that assigns the text of a literal is read as the assignment of the literal. -/
theorem IsLiteral.parse_eq_ok (h : v.IsLiteral most) (hlt : most < limit) :
    Program.parse limit v.readback = .ok [.assign 1 "x" v.literal] := by
  obtain ⟨e, he, hfold⟩ := h.exists_resolve_tree 1
  have hlength : (Syntax.scan v.readback).length = (v.assigned "x").length := by
    rw [← List.length_map (f := Prod.fst), h.map_fst_scan, Syntax.length_lexemesAt]
  have hsize : v.tokens.length < (v.assigned "x").length := by
    simp only [assigned, List.length_cons, List.length_append]
    omega
  have hreads : (Syntax.Grammar.script (v.assigned "x").length).Reads
      (Syntax.lexemesAt 1 0 (v.assigned "x")) [.assign 1 "x" (v.tree 1)] [] :=
    h.script_reads "x" hsize
  obtain ⟨reach, hscript⟩ := hreads 0
  have htree : Program.tree v.readback = .ok [.assign 1 "x" (v.tree 1)] := by
    rw [Program.tree]
    simp only [hlength, h.map_fst_scan, hscript]
  rw [Program.parse, Program.unfolded, h.excess?_readback hlt]
  simp only [htree, Stmt.resolveBody, Stmt.resolve, he]
  rw [← hfold]
  rfl

end Reading

/-! ## Running -/

variable {v : Value Code} {most : Nat}

section Evaluation

variable (call : Caller) (scope : Scope) (line : Line)

/-- The literals of some values evaluate to these, if each of them does. -/
theorem exists_evalAll {items : List (Value Code)}
    (h : ∀ v ∈ items, ∃ u : Value Definition, u.code = v ∧
      v.literal.eval call scope line = pure u) :
    ∃ us : List (Value Definition), mapItems Definition.code us = items ∧
      Expr.evalAll call scope line (literals items) = pure us := by
  induction items with
  | nil => exact ⟨[], rfl, rfl⟩
  | cons item rest ih =>
    obtain ⟨⟨u, hu, heval⟩, hrest⟩ := List.forall_mem_cons.1 h
    obtain ⟨us, hus, hevals⟩ := ih hrest
    refine ⟨u :: us, congrArg₂ List.cons hu hus, ?_⟩
    rw [literals, Expr.evalAll, heval, hevals]
    rfl

/-- The expression that stands for a literal has that literal as its value, wherever it stands. -/
theorem IsLiteral.exists_eval (h : v.IsLiteral most) :
    ∃ u : Value Definition, u.code = v ∧ v.literal.eval call scope line = pure u := by
  induction h with
  | none => exact ⟨.none, rfl, rfl⟩
  | bool b => exact ⟨.bool b, rfl, rfl⟩
  | @int most n hn => exact ⟨.int n, rfl, rfl⟩
  | str s => exact ⟨.str s, rfl, rfl⟩
  | @list most items h ih =>
    obtain ⟨us, hus, hevals⟩ := exists_evalAll call scope line ih
    refine ⟨.list us, congrArg Value.list hus, ?_⟩
    rw [literal, Expr.eval, hevals]
    rfl

end Evaluation

/-- The assignment of a literal ends without a fault, with the name bound to the literal. -/
theorem IsLiteral.exists_evaluate (h : v.IsLiteral most) (line : Line) (name : String)
    (maxDepth fuel : Nat) : ∃ w : World,
      Program.evaluate maxDepth fuel [.assign line name v.literal] = some (.ok (), w) ∧
        w.globals.map Value.code = Bindings.empty.insert name v := by
  obtain ⟨u, hu, heval⟩ := h.exists_eval (callIn fuel (maxDepth - 1)) Option.none line
  refine ⟨⟨Bindings.empty.insert name u, []⟩, ?_, ?_⟩
  · rw [Program.evaluate, Stmt.execAll, Stmt.exec, heval]
    rfl
  · rw [← hu]
    exact (Bindings.insert_map Value.code .empty).symm

/-- What is written of a value is read back as that value. Whatever `v` is made of nothing, truth
    values, integers other than the smallest one, texts and lists of such values nested fewer than
    20 deep, the script `x = ` with what is written of `v` is read under the default nesting
    limit and has a code. Every run of that code, traced or not and whoever watches it, finishes,
    and leaves `x` bound to `v` and nothing else bound. -/
theorem IsLiteral.finish_readback (h : v.IsLiteral most) (hmost : most < Program.defaultNesting) :
    ∃ program code, Program.parse Program.defaultNesting ("x = " ++ v.repr) = .ok program ∧
      program.compile = .ok code ∧
      ∀ (maxDepth : Nat) (traced : Bool) {σ : Type} (watcher : Watcher σ) (s : σ),
        ∃ n e s', (∀ fuel stretches, n ≤ fuel → n ≤ stretches →
            (Execution.start code maxDepth traced).finish watcher fuel stretches s =
              some (.finished, e, s')) ∧
          e.machine.globals = Bindings.empty.insert "x" v := by
  have hparse : Program.parse _ v.readback = .ok _ := h.parse_eq_ok hmost
  have hcompile : Program.compile [.assign 1 "x" v.literal] = .ok _ :=
    Program.compile_eq_ok_iff.2 ⟨rfl, rfl⟩
  refine ⟨_, _, hparse, hcompile, fun maxDepth traced σ watcher s => ?_⟩
  obtain ⟨world, hevaluate, hglobals⟩ := h.exists_evaluate 1 "x" maxDepth 0
  obtain ⟨n, e, s', hfinish, heq⟩ := Program.finish_of_evaluate
    (Program.isLegal_of_parse hparse hcompile) hevaluate traced watcher s
  exact ⟨n, e, s', hfinish, heq.trans hglobals⟩

/-- A list in a list, with a negative number in it and a text in which both quotes, a backslash and
    the end of a line are escaped. -/
def sample : Value Code :=
  .list [.list [.int (-1)], .str "it's a \"\\\n", .none, .bool true]

/-- The text of the sample is read back as the sample. -/
theorem IsLiteral.finish_readback_sample :
    sample.IsLiteral 2 ∧ 2 < Program.defaultNesting ∧
      sample.repr = "[[-1], 'it\\'s a \"\\\\\\n', None, True]" ∧
      ∃ program code, Program.parse Program.defaultNesting ("x = " ++ sample.repr) = .ok program ∧
        program.compile = .ok code ∧
        ∀ (maxDepth : Nat) (traced : Bool) {σ : Type} (watcher : Watcher σ) (s : σ),
          ∃ n e s', (∀ fuel stretches, n ≤ fuel → n ≤ stretches →
              (Execution.start code maxDepth traced).finish watcher fuel stretches s =
                some (.finished, e, s')) ∧
            e.machine.globals = Bindings.empty.insert "x" sample := by
  have hinner : (Value.list [.int (-1)] : Value Code).IsLiteral 1 :=
    .list (List.forall_mem_singleton.2 (.int (by decide)))
  have hsample : sample.IsLiteral 2 := by
    refine .list fun v hv => ?_
    simp only [List.mem_cons, List.not_mem_nil, or_false] at hv
    rcases hv with rfl | rfl | rfl | rfl
    · exact hinner
    · exact .str _
    · exact .none
    · exact .bool true
  exact ⟨hsample, by decide, by decide, hsample.finish_readback (by decide)⟩

end Value

end Linewise
