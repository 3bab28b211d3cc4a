import Linewise.Proofs.Code.Loops
import Linewise.Proofs.Evaluation.Realization
import Linewise.Proofs.Machine.Within

/-!
# Definitions of a program

All function definitions that stand anywhere in a program (`Program.definitions`), and its codes:
that of the script itself and one for each definition (`Program.HasCode`). All codes that a program
ever runs are among them, as a code makes functions of the definitions in it only
(`Program.closed_hasCode`).
-/

namespace Linewise

mutual

/-- All function definitions in a statement. -/
def Stmt.definitions : Stmt Int64 → List Definition
  | .define line name params body ident =>
    ⟨line, name, params, body, ident⟩ :: Stmt.definitionsOf body
  | .branch _ _ body otherwise => Stmt.definitionsOf body ++ otherwise.definitions
  | .whileLoop _ _ body | .forLoop _ _ _ body => Stmt.definitionsOf body
  | .expr .. | .assign .. | .assignItem .. | .leave .. | .breakLoop _ | .continueLoop _
  | .pass _ => []

/-- All function definitions in what a conditional may go on with. -/
def Otherwise.definitions : Otherwise Int64 → List Definition
  | .nothing => []
  | .body body => Stmt.definitionsOf body
  | .arm _ _ body otherwise => Stmt.definitionsOf body ++ otherwise.definitions

/-- All function definitions in some statements. -/
def Stmt.definitionsOf : List (Stmt Int64) → List Definition
  | [] => []
  | stmt :: rest => stmt.definitions ++ Stmt.definitionsOf rest

end

/-- All function definitions of a program. -/
abbrev Program.definitions (program : Program) : List Definition := Stmt.definitionsOf program

/-- The code is that of a program itself or of one of its definitions. -/
inductive Program.HasCode (program : Program) : Code → Prop
  | script : HasCode program program.emit
  | function {d : Definition} (hd : d ∈ program.definitions) : HasCode program d.code

/-! ## Definitions within definitions -/

section Within

variable {d d' : Definition}

mutual

/-- A definition in the body of another one is in all that the other one is in. -/
theorem Stmt.mem_definitions_of_body : ∀ {stmt : Stmt Int64}, d ∈ stmt.definitions →
    d' ∈ Stmt.definitionsOf d.body → d' ∈ stmt.definitions
  | .define .., hd, hd' => by
    rcases List.mem_cons.1 hd with rfl | hd
    · exact List.mem_cons_of_mem _ hd'
    · exact List.mem_cons_of_mem _ (Stmt.mem_definitionsOf_of_body hd hd')
  | .branch .., hd, hd' =>
    List.mem_append.2 ((List.mem_append.1 hd).imp (Stmt.mem_definitionsOf_of_body · hd')
      (Otherwise.mem_definitions_of_body · hd'))
  | .whileLoop .., hd, hd' | .forLoop .., hd, hd' => Stmt.mem_definitionsOf_of_body hd hd'

theorem Otherwise.mem_definitions_of_body : ∀ {otherwise : Otherwise Int64},
    d ∈ otherwise.definitions → d' ∈ Stmt.definitionsOf d.body → d' ∈ otherwise.definitions
  | .body _, hd, hd' => Stmt.mem_definitionsOf_of_body hd hd'
  | .arm .., hd, hd' =>
    List.mem_append.2 ((List.mem_append.1 hd).imp (Stmt.mem_definitionsOf_of_body · hd')
      (Otherwise.mem_definitions_of_body · hd'))

/-- A definition in the body of one of the definitions in some statements is in these statements,
    too. -/
theorem Stmt.mem_definitionsOf_of_body : ∀ {stmts : List (Stmt Int64)},
    d ∈ Stmt.definitionsOf stmts → d' ∈ Stmt.definitionsOf d.body → d' ∈ Stmt.definitionsOf stmts
  | _ :: _, hd, hd' =>
    List.mem_append.2 ((List.mem_append.1 hd).imp (Stmt.mem_definitions_of_body · hd')
      (Stmt.mem_definitionsOf_of_body · hd'))

end

/-- The statement that a definition comes from. -/
def Definition.stmt (d : Definition) : Stmt Int64 := .define d.line d.name d.params d.body d.ident

mutual

/-- A definition in a legal statement is legal. -/
theorem Legal.stmt_of_mem_definitions : ∀ {stmt : Stmt Int64} {around : Surroundings},
    Legal around [stmt] → d ∈ stmt.definitions → Legal .outermost [d.stmt]
  | .define .., _, h, hd => by
    rcases List.mem_cons.1 hd with rfl | hd
    · exact h.part h.placed (List.Subset.refl _)
    · exact Legal.stmt_of_mem h.define_body hd
  | .branch _ _ _ otherwise, _, h, hd => by
    rcases List.mem_append.1 hd with hd | hd
    · exact Legal.stmt_of_mem h.branch_body hd
    · exact Legal.stmt_of_mem_otherwise h.branch_otherwise hd
  | .whileLoop .., _, h, hd => Legal.stmt_of_mem h.while_body hd
  | .forLoop .., _, h, hd => Legal.stmt_of_mem h.for_body hd

theorem Legal.stmt_of_mem_otherwise : ∀ {otherwise : Otherwise Int64} {around : Surroundings},
    Legal around otherwise.toStmts → d ∈ otherwise.definitions → Legal .outermost [d.stmt]
  | .body _, _, h, hd => Legal.stmt_of_mem h hd
  | .arm _ _ _ otherwise, _, h, hd => by
    rcases List.mem_append.1 hd with hd | hd
    · exact Legal.stmt_of_mem h.branch_body hd
    · exact Legal.stmt_of_mem_otherwise h.branch_otherwise hd

/-- A definition in legal statements is legal by itself: nothing in its body depends on what is
    around it. -/
theorem Legal.stmt_of_mem : ∀ {stmts : List (Stmt Int64)} {around : Surroundings},
    Legal around stmts → d ∈ Stmt.definitionsOf stmts → Legal .outermost [d.stmt]
  | _ :: _, _, h, hd => by
    rcases List.mem_append.1 hd with hd | hd
    · exact Legal.stmt_of_mem_definitions h.head hd
    · exact Legal.stmt_of_mem h.tail hd

end

mutual

/-- The lines of a definition in a statement ascend as those of the statement do. -/
theorem Ascending.stmt_of_mem_definitions : ∀ {stmt : Stmt Int64}, Ascending [stmt] →
    d ∈ stmt.definitions → Ascending [d.stmt]
  | .define .., h, hd => by
    rcases List.mem_cons.1 hd with rfl | hd
    · exact h
    · exact Ascending.stmt_of_mem h.define_body hd
  | .branch _ _ _ otherwise, h, hd => by
    rcases List.mem_append.1 hd with hd | hd
    · exact Ascending.stmt_of_mem h.branch_body hd
    · exact Ascending.stmt_of_mem_otherwise h.branch_otherwise hd
  | .whileLoop .., h, hd => Ascending.stmt_of_mem h.while_body hd
  | .forLoop .., h, hd => Ascending.stmt_of_mem h.for_body hd

theorem Ascending.stmt_of_mem_otherwise : ∀ {otherwise : Otherwise Int64},
    Ascending otherwise.toStmts → d ∈ otherwise.definitions → Ascending [d.stmt]
  | .body _, h, hd => Ascending.stmt_of_mem h hd
  | .arm _ _ _ otherwise, h, hd => by
    rcases List.mem_append.1 hd with hd | hd
    · exact Ascending.stmt_of_mem h.branch_body hd
    · exact Ascending.stmt_of_mem_otherwise h.branch_otherwise hd

/-- The lines in a definition ascend if those of the statements around it do. -/
theorem Ascending.stmt_of_mem : ∀ {stmts : List (Stmt Int64)}, Ascending stmts →
    d ∈ Stmt.definitionsOf stmts → Ascending [d.stmt]
  | _ :: _, h, hd => by
    rcases List.mem_append.1 hd with hd | hd
    · exact Ascending.stmt_of_mem_definitions h.head hd
    · exact Ascending.stmt_of_mem h.tail hd

end

end Within

/-! ## The functions that a code makes -/

/-- The instruction makes a function, if any, of one of some definitions. -/
def Instr.Introduces (ds : List Definition) (instr : Instr) : Prop :=
  ∀ inner, instr = .makeFunction inner → ∃ d ∈ ds, inner = d.code

section Introduces

open Instr (Introduces)

variable {ds : List Definition}

/-- The code of an expression makes no functions. -/
theorem Expr.introduces_emit {e : Expr Int64} {start : Nat} :
    ∀ instr ∈ e.emit start, instr.Introduces ds := by
  rintro instr h inner rfl
  exact absurd (e.computes_emit (Nat.le_refl _) _ h).operation Bool.false_ne_true

mutual

/-- A statement makes functions of the definitions in it only. -/
theorem Stmt.introduces_emit : ∀ {stmt : Stmt Int64} {loop : Option Loop} {start : Nat},
    stmt.definitions ⊆ ds → ∀ instr ∈ stmt.emit loop start, instr.Introduces ds
  | .expr _ value, _, _, _ | .assign _ _ value, _, _, _ =>
    List.forall_mem_append.2 ⟨value.introduces_emit, List.forall_mem_singleton.2 nofun⟩
  | .assignItem _ _ index value, _, _, _ =>
    List.forall_mem_append.2 ⟨List.forall_mem_append.2 ⟨index.introduces_emit,
      value.introduces_emit⟩, List.forall_mem_singleton.2 nofun⟩
  | .branch _ test body otherwise, _, _, h => by
    obtain ⟨hbody, hotherwise⟩ := List.append_subset.1 h
    simp only [Stmt.emit, List.forall_mem_append, List.forall_mem_cons]
    exact ⟨⟨test.introduces_emit, nofun, Stmt.introduces_emitAll hbody⟩, nofun,
      Otherwise.introduces_emit hotherwise⟩
  | .whileLoop _ test body, _, _, h => by
    simp only [Stmt.emit, List.forall_mem_append, List.forall_mem_cons]
    exact ⟨⟨⟨nofun, nofun, test.introduces_emit⟩, nofun, Stmt.introduces_emitAll h⟩, nofun, nofun⟩
  | .forLoop _ _ iterable body, _, _, h => by
    simp only [Stmt.emit, List.forall_mem_append, List.forall_mem_cons]
    exact ⟨⟨iterable.introduces_emit, nofun, nofun, nofun, nofun, nofun,
      Stmt.introduces_emitAll h⟩, nofun, nofun⟩
  | .define .., _, _, h => by
    -- What makes the function is the only instruction that makes one.
    refine List.forall_mem_cons.2 ⟨?_, List.forall_mem_singleton.2 nofun⟩
    rintro inner ⟨⟩
    exact ⟨_, h List.mem_cons_self, rfl⟩
  | .leave _ none, _, _, _ => List.forall_mem_cons.2 ⟨nofun, List.forall_mem_singleton.2 nofun⟩
  | .leave _ (some value), _, _, _ =>
    List.forall_mem_append.2 ⟨value.introduces_emit, List.forall_mem_singleton.2 nofun⟩
  | .breakLoop _, none, _, _ | .continueLoop _, none, _, _ | .pass _, _, _, _ => nofun
  | .breakLoop _, some ⟨.testing, _, _⟩, _, _ | .continueLoop _, some _, _, _ =>
    List.forall_mem_singleton.2 nofun
  | .breakLoop _, some ⟨.iterating, _, _⟩, _, _ =>
    List.forall_mem_cons.2 ⟨nofun, List.forall_mem_singleton.2 nofun⟩

/-- The code of what a conditional goes on with makes only functions that are defined in it. -/
theorem Otherwise.introduces_emit : ∀ {otherwise : Otherwise Int64} {loop : Option Loop}
    {finish start : Nat}, otherwise.definitions ⊆ ds →
    ∀ instr ∈ otherwise.emit loop finish start, instr.Introduces ds
  | .nothing, _, _, _, _ => nofun
  | .body _, _, _, _, h => Stmt.introduces_emitAll h
  | .arm _ test body otherwise, _, _, _, h => by
    obtain ⟨hbody, hotherwise⟩ := List.append_subset.1 h
    simp only [Otherwise.emit, List.forall_mem_append, List.forall_mem_cons]
    exact ⟨⟨⟨nofun, test.introduces_emit⟩, nofun, Stmt.introduces_emitAll hbody⟩, nofun,
      Otherwise.introduces_emit hotherwise⟩

/-- The code of statements makes only functions that are defined in them. -/
theorem Stmt.introduces_emitAll : ∀ {stmts : List (Stmt Int64)} {loop : Option Loop}
    {before : Line} {start : Nat}, Stmt.definitionsOf stmts ⊆ ds →
    ∀ instr ∈ Stmt.emitAll loop before start stmts, instr.Introduces ds
  | [], _, _, _, _ => nofun
  | stmt :: rest, loop, before, _, h => by
    obtain ⟨hstmt, hrest⟩ := List.append_subset.1 h
    simp only [Stmt.emitAll, List.forall_mem_append]
    refine ⟨⟨?_, Stmt.introduces_emit hstmt⟩, Stmt.introduces_emitAll hrest⟩
    rw [emitLine]
    split
    · exact nofun
    · exact List.forall_mem_singleton.2 nofun

end

end Introduces

/-- The body of a definition makes functions of the definitions in it only. -/
theorem Definition.introduces_instrs (d : Definition) :
    ∀ instr ∈ d.code.instrs, instr.Introduces (Stmt.definitionsOf d.body) :=
  List.forall_mem_append.2 ⟨Stmt.introduces_emitAll (List.Subset.refl _),
    List.forall_mem_cons.2 ⟨nofun, List.forall_mem_singleton.2 nofun⟩⟩

/-- The codes of a program make functions of its codes only. -/
theorem Program.closed_hasCode (program : Program) :
    Code.Closed fun code => code.Guarded ∧ program.HasCode code := by
  rintro code ⟨⟨-, hconst, hguarded⟩, hcode⟩
  refine ⟨fun hv => ?_, fun hinner => ⟨hguarded hinner, ?_⟩⟩
  · rw [Value.Within, hconst hv]
    rintro _ ⟨⟩
  · cases hcode with
    | script =>
      obtain ⟨d, hd, rfl⟩ := Stmt.introduces_emitAll (List.Subset.refl _) _ hinner _ rfl
      exact .function hd
    | function hd =>
      obtain ⟨d', hd', rfl⟩ := Definition.introduces_instrs _ _ hinner _ rfl
      exact .function (Stmt.mem_definitionsOf_of_body hd hd')

/-- A machine that runs the code of a program starts with a code of it and makes functions of its
    codes only. -/
theorem Program.within_start (program : Program) (maxDepth : Nat) :
    (Machine.start program.emit maxDepth).Within
      fun code => code.Guarded ∧ program.HasCode code :=
  Machine.within_mk (Frame.within_enter ⟨program.guarded_emit, .script⟩ Bindings.all_empty) nofun
    Bindings.all_empty

end Linewise
