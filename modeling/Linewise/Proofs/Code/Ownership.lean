import Mathlib.Data.List.Forall2
import Linewise.Proofs.Code.Definitions

/-!
# Ownership

Every instruction of a program belongs to a statement, to a later arm of a conditional or to the
header of a loop, apart from those that only lead the way: the `line` instructions, the jumps that
are always taken, and the return at the end of a function (`Instr.isRouting`). An instruction is
*owned* by the line that what it belongs to starts on.

The owners of the instructions follow from the tree alone, as the instructions do: they are listed
in the order in which the instructions are emitted (`Stmt.owners`), with none for those that lead
the way (`Stmt.owned_emit`).
-/

namespace Linewise

/-! ## Owners -/

/-- The instruction only leads the way: it marks a line, or it always jumps. -/
def Instr.isRouting : Instr → Bool
  | .line _ | .jump _ => true
  | _ => false

mutual

/-- The lines that own the instructions of a statement in a loop of a given kind. -/
def Stmt.owners (loop : Option LoopKind) : Stmt Int64 → List (Option Line)
  | .expr line value | .assign line _ value => List.replicate (value.codeSize + 1) (some line)
  | .assignItem line _ index value =>
    List.replicate (index.codeSize + value.codeSize + 1) (some line)
  | .branch line test body otherwise =>
    List.replicate (test.codeSize + 1) (some line) ++ Stmt.ownersOf loop line body ++
      none :: otherwise.owners loop
  | .whileLoop line test body =>
    none :: none :: List.replicate (test.codeSize + 1) (some line) ++
      Stmt.ownersOf (some .testing) line body ++ [none]
  | .forLoop line _ iterable body =>
    List.replicate (iterable.codeSize + 1) (some line) ++
      none :: none :: some line :: some line :: Stmt.ownersOf (some .iterating) line body ++
      [none]
  | .define line .. => [some line, some line]
  | .leave line value => List.replicate ((returned value).codeSize + 1) (some line)
  | .breakLoop line =>
    match loop with
    | none => []
    | some .testing => [none]
    | some .iterating => [some line, none]
  | .continueLoop _ => if loop.isSome then [none] else []
  | .pass _ => []

/-- The lines that own the instructions of the arms of a conditional. -/
def Otherwise.owners (loop : Option LoopKind) : Otherwise Int64 → List (Option Line)
  | .nothing => []
  | .body body => Stmt.ownersOf loop 0 body
  | .arm line test body otherwise =>
    none :: List.replicate (test.codeSize + 1) (some line) ++ Stmt.ownersOf loop line body ++
      none :: otherwise.owners loop

/-- The lines that own the instructions of a body, after code of the line `before`. -/
def Stmt.ownersOf (loop : Option LoopKind) (before : Line) : List (Stmt Int64) → List (Option Line)
  | [] => []
  | stmt :: rest =>
    List.replicate (lineSize before stmt.line) none ++ stmt.owners loop ++
      Stmt.ownersOf loop stmt.line rest

end

/-- The lines that own the instructions of a program outside of its functions. -/
def Program.owners (program : Program) : List (Option Line) := Stmt.ownersOf none 0 program

/-- The lines that own the instructions of a function. The return at its end has no owner. -/
def Definition.owners (d : Definition) : List (Option Line) :=
  Stmt.ownersOf none d.line d.body ++ [none, none]

/-! ## Owners and instructions -/

/-- Owners are those of instructions, as far as exactly the ones that lead the way have none. -/
abbrev Owned : List (Option Line) → List Instr → Prop :=
  List.Forall₂ fun owner instr => owner = none ↔ instr.isRouting = true

namespace Owned

variable {line : Line} {count start : Nat} {instr : Instr} {instrs instrs' : List Instr}
  {owners owners' : List (Option Line)}

theorem append (h : Owned owners instrs) (h' : Owned owners' instrs') :
    Owned (owners ++ owners') (instrs ++ instrs') :=
  List.rel_append h h'

theorem routing (hinstr : instr.isRouting = true) (h : Owned owners instrs) :
    Owned (none :: owners) (instr :: instrs) :=
  List.Forall₂.cons (iff_of_true rfl hinstr) h

theorem cons (hinstr : instr.isRouting = false) (h : Owned owners instrs) :
    Owned (some line :: owners) (instr :: instrs) :=
  List.Forall₂.cons (iff_of_false nofun (Bool.eq_false_iff.1 hinstr)) h

/-- Instructions of which none only routes may all be owned by one line. -/
theorem replicate (h : ∀ instr ∈ instrs, instr.isRouting = false)
    (hcount : instrs.length = count) : Owned (List.replicate count (some line)) instrs := by
  subst hcount
  induction instrs with
  | nil => exact .nil
  | cons instr rest ih =>
    obtain ⟨hinstr, hrest⟩ := List.forall_mem_cons.1 h
    exact .cons hinstr (ih hrest)

end Owned

/-- An operation does not only lead the way. -/
theorem Instr.isRouting_of_isOperation {instr : Instr} (h : instr.isOperation = true) :
    instr.isRouting = false := by
  cases instr <;> first | rfl | cases h

/-- No instruction of an expression leads the way. -/
theorem Expr.isRouting_emit {e : Expr Int64} {start : Nat} :
    ∀ instr ∈ e.emit start, instr.isRouting = false :=
  fun instr h => Instr.isRouting_of_isOperation (e.computes_emit (Nat.le_refl _) instr h).operation

/-- The owner of an expression owns the instruction that takes its value, too. -/
theorem Expr.owned_emit {line : Line} {instr : Instr} {owners : List (Option Line)}
    {instrs : List Instr} (e : Expr Int64) (start : Nat) (hinstr : instr.isRouting = false)
    (h : Owned owners instrs) :
    Owned (List.replicate (e.codeSize + 1) (some line) ++ owners)
      (e.emit start ++ instr :: instrs) := by
  rw [List.append_cons]
  refine .append (.replicate ?_ (by simp)) h
  exact List.forall_mem_append.2 ⟨Expr.isRouting_emit, List.forall_mem_singleton.2 hinstr⟩

theorem Expr.owned_emit_singleton {line : Line} {instr : Instr} (e : Expr Int64) (start : Nat)
    (hinstr : instr.isRouting = false) :
    Owned (List.replicate (e.codeSize + 1) (some line)) (e.emit start ++ [instr]) := by
  simpa using e.owned_emit start hinstr .nil

theorem owned_emitLine {before line : Line} :
    Owned (List.replicate (lineSize before line) none) (emitLine before line) := by
  rw [lineSize, emitLine]
  split
  · exact .nil
  · exact .routing rfl .nil

mutual

/-- Exactly the instructions of a statement that lead the way have no owner. -/
theorem Stmt.owned_emit : ∀ (stmt : Stmt Int64) (loop : Option Loop) (start : Nat),
    Owned (stmt.owners (loop.map Loop.kind)) (stmt.emit loop start)
  | .expr _ value, _, start | .assign _ _ value, _, start => value.owned_emit_singleton start rfl
  | .assignItem _ _ index value, _, _ => by
    -- No expression has an instruction that only routes.
    refine .replicate (fun instr h => ?_) (by simp [Stmt.emit, Nat.add_assoc])
    simp only [Stmt.emit, List.mem_append, List.mem_singleton] at h
    rcases h with (h | h) | rfl
    · exact index.isRouting_emit instr h
    · exact value.isRouting_emit instr h
    · rfl
  | .branch line test body otherwise, loop, start =>
    (test.owned_emit start rfl (Stmt.owned_emitAll body loop line _)).append
      (.routing rfl (Otherwise.owned_emit otherwise loop _ _))
  | .whileLoop line test body, _, _ =>
    .append (.routing rfl (.routing rfl (test.owned_emit _ rfl
      (Stmt.owned_emitAll body (some ⟨.testing, _, _⟩) line _)))) (.routing rfl .nil)
  | .forLoop line _ iterable body, _, start =>
    (iterable.owned_emit start rfl (.routing rfl (.routing rfl (.cons rfl (.cons rfl
      (Stmt.owned_emitAll body (some ⟨.iterating, _, _⟩) line _)))))).append (.routing rfl .nil)
  | .define .., _, _ => .cons rfl (.cons rfl .nil)
  | .leave _ none, _, _ => .cons rfl (.cons rfl .nil)
  | .leave _ (some value), _, start => value.owned_emit_singleton start rfl
  | .breakLoop _, none, _ | .continueLoop _, none, _ | .pass _, _, _ => .nil
  | .breakLoop _, some ⟨.testing, _, _⟩, _ => .routing rfl .nil
  | .breakLoop _, some ⟨.iterating, _, _⟩, _ => .cons rfl (.routing rfl .nil)
  | .continueLoop _, some _, _ => .routing rfl .nil

/-- The owners of what a conditional goes on with fit its instructions. -/
theorem Otherwise.owned_emit : ∀ (otherwise : Otherwise Int64) (loop : Option Loop)
    (finish start : Nat),
    Owned (otherwise.owners (loop.map Loop.kind)) (otherwise.emit loop finish start)
  | .nothing, _, _, _ => .nil
  | .body body, loop, _, _ => Stmt.owned_emitAll body loop 0 _
  | .arm line test body otherwise, loop, finish, _ =>
    (Owned.routing rfl (test.owned_emit _ rfl (Stmt.owned_emitAll body loop line _))).append
      (.routing rfl (Otherwise.owned_emit otherwise loop finish _))

/-- The owners of statements fit their instructions. -/
theorem Stmt.owned_emitAll : ∀ (stmts : List (Stmt Int64)) (loop : Option Loop) (before : Line)
    (start : Nat),
    Owned (Stmt.ownersOf (loop.map Loop.kind) before stmts) (Stmt.emitAll loop before start stmts)
  | [], _, _, _ => .nil
  | stmt :: rest, loop, _, _ =>
    (owned_emitLine.append (Stmt.owned_emit stmt loop _)).append
      (Stmt.owned_emitAll rest loop stmt.line _)

end

theorem exists_map_kind (kind : Option LoopKind) :
    ∃ loop : Option Loop, loop.map Loop.kind = kind :=
  ⟨kind.map (⟨·, 0, 0⟩), by cases kind <;> rfl⟩

@[simp]
theorem Stmt.length_owners (loop : Option LoopKind) (stmt : Stmt Int64) :
    (stmt.owners loop).length = stmt.codeSize loop := by
  obtain ⟨loop, rfl⟩ := exists_map_kind loop
  rw [(stmt.owned_emit loop 0).length_eq, stmt.length_emit]

@[simp]
theorem Stmt.length_ownersOf (loop : Option LoopKind) (before : Line) (stmts : List (Stmt Int64)) :
    (Stmt.ownersOf loop before stmts).length = Stmt.codeSizeOf loop before stmts := by
  obtain ⟨loop, rfl⟩ := exists_map_kind loop
  rw [(Stmt.owned_emitAll stmts loop before 0).length_eq, Stmt.length_emitAll]

mutual

/-- The instructions of a statement are owned by lines in it. -/
theorem Stmt.mem_lines_of_mem_owners {line : Line} : ∀ {stmt : Stmt Int64}
    {loop : Option LoopKind}, some line ∈ stmt.owners loop → line ∈ stmt.lines
  | .expr .., _, h | .assign .., _, h | .assignItem .., _, h | .leave .., _, h => by
    cases List.eq_of_mem_replicate h
    exact List.mem_singleton_self _
  | .branch _ test body otherwise, loop, h => by
    simp only [Stmt.owners, List.mem_append, List.mem_cons, reduceCtorEq, false_or] at h
    simp only [Stmt.lines, Stmt.marks, List.mem_append, List.mem_singleton]
    -- The owner is that of the test, or of an instruction in the body or in what follows.
    rcases h with (h | h) | h
    · cases List.eq_of_mem_replicate h
      exact .inl rfl
    · exact .inr (.inl (Stmt.mem_linesOf_of_mem_owners h))
    · exact .inr (.inr (Otherwise.mem_lines_of_mem_owners h))
  | .whileLoop _ test body, _, h => by
    simp only [Stmt.owners, List.cons_append, List.mem_append, List.mem_cons, reduceCtorEq,
      false_or, or_false, List.not_mem_nil] at h
    simp only [Stmt.lines, Stmt.marks, List.mem_append, List.mem_singleton]
    rcases h with h | h
    · cases List.eq_of_mem_replicate h
      exact .inl rfl
    · exact .inr (Stmt.mem_linesOf_of_mem_owners h)
  | .forLoop _ _ iterable body, _, h => by
    simp only [Stmt.owners, List.mem_append, List.mem_cons, reduceCtorEq, false_or, or_false,
      List.not_mem_nil, Option.some.injEq] at h
    simp only [Stmt.lines, Stmt.marks, List.mem_append, List.mem_singleton]
    -- The owner is that of the items, of one of the two instructions that take them, or of an
    -- instruction in the body.
    rcases h with h | h | h | h
    · cases List.eq_of_mem_replicate h
      exact .inl rfl
    · exact .inl h
    · exact .inl h
    · exact .inr (Stmt.mem_linesOf_of_mem_owners h)
  | .define .., _, h => by
    simp only [Stmt.owners, List.mem_cons, Option.some.injEq, List.not_mem_nil, or_false,
      or_self] at h
    exact List.mem_append_left _ (List.mem_singleton.2 h)
  | .breakLoop _, none, h | .continueLoop _, none, h | .pass _, _, h => nomatch h
  | .breakLoop _, some .testing, h | .continueLoop _, some _, h => by
    cases List.mem_singleton.1 h
  | .breakLoop _, some .iterating, h => by
    simp only [Stmt.owners, List.mem_cons, Option.some.injEq, reduceCtorEq, List.not_mem_nil,
      or_false] at h
    exact List.mem_singleton.2 h

/-- The instructions of what a conditional goes on with are owned by lines of it. -/
theorem Otherwise.mem_lines_of_mem_owners {line : Line} : ∀ {otherwise : Otherwise Int64}
    {loop : Option LoopKind}, some line ∈ otherwise.owners loop → line ∈ otherwise.lines
  | .nothing, _, h => nomatch h
  | .body _, _, h => Stmt.mem_linesOf_of_mem_owners h
  | .arm _ test body otherwise, loop, h => by
    simp only [Otherwise.owners, List.cons_append, List.mem_append, List.mem_cons, reduceCtorEq,
      false_or] at h
    simp only [Otherwise.lines, Otherwise.marks, List.mem_append, List.mem_singleton]
    rcases h with (h | h) | h
    · cases List.eq_of_mem_replicate h
      exact .inl rfl
    · exact .inr (.inl (Stmt.mem_linesOf_of_mem_owners h))
    · exact .inr (.inr (Otherwise.mem_lines_of_mem_owners h))

/-- The instructions of statements are owned by lines of them. -/
theorem Stmt.mem_linesOf_of_mem_owners {line : Line} : ∀ {stmts : List (Stmt Int64)}
    {loop : Option LoopKind} {before : Line}, some line ∈ Stmt.ownersOf loop before stmts →
    line ∈ Stmt.linesOf stmts
  | [], _, _, h => nomatch h
  | stmt :: rest, _, _, h => by
    simp only [Stmt.ownersOf, List.mem_append] at h
    rcases h with (h | h) | h
    · cases List.eq_of_mem_replicate h
    · exact List.mem_append_left _ (Stmt.mem_lines_of_mem_owners h)
    · exact List.mem_append_right _ (Stmt.mem_linesOf_of_mem_owners h)

end

/-! ## The codes of a program -/

/-- A code of a program and the owners of its instructions. -/
inductive Program.Table (program : Program) : Code → List (Option Line) → Prop
  | script : Table program program.emit program.owners
  | function {d : Definition} (hd : d ∈ program.definitions) : Table program d.code d.owners

/-- The instruction at an address of a code of the program is owned by a line. -/
def Program.Owns (program : Program) (code : Code) (i : Nat) (line : Line) : Prop :=
  ∃ owners, program.Table code owners ∧ owners[i]? = some (some line)

/-- The address is one of the return at the end of a function. -/
def Code.Epilogue (code : Code) (i : Nat) : Prop :=
  code.isModule = false ∧ code.instrs.length ≤ i + 2

/-- Each instruction other than those that only route has an owner. -/
theorem Owned.exists_owner {owners : List (Option Line)} {instrs : List Instr} {i : Nat}
    {instr : Instr} (h : Owned owners instrs) (hinstr : instrs[i]? = some instr)
    (hrouting : instr.isRouting = false) : ∃ line, owners[i]? = some (some line) := by
  induction h generalizing i with
  | nil => cases hinstr
  | @cons owner _ _ _ hfirst _ ih =>
    cases i with
    | zero =>
      cases hinstr
      have hsome : owner ≠ none := fun hnone => Bool.eq_false_iff.1 hrouting (hfirst.1 hnone)
      obtain ⟨line, rfl⟩ := Option.ne_none_iff_exists'.1 hsome
      exact ⟨line, rfl⟩
    | succ i => exact ih hinstr

/-- In the codes of a program every instruction has an owner that does not lead the way and is not
    part of the return at the end of a function. -/
theorem Program.exists_owns {program : Program} {code : Code} {i : Nat} {instr : Instr}
    (hlegal : Legal .outermost program) (hcode : program.HasCode code)
    (hinstr : code.instrs[i]? = some instr) (hrouting : instr.isRouting = false)
    (hend : ¬ code.Epilogue i) : ∃ line, program.Owns code i line := by
  cases hcode with
  | script =>
    obtain ⟨line, hline⟩ := Owned.exists_owner (Stmt.owned_emitAll program none 0 0) hinstr hrouting
    exact ⟨line, _, .script, hline⟩
  | @function d hd =>
    have hmodule : d.code.isModule = false :=
      decide_eq_false (hlegal.stmt_of_mem hd).define_name
    have hlt : i < (Stmt.emitAll none d.line 0 d.body).length := by
      refine Nat.lt_of_not_le fun hle => hend ⟨hmodule, ?_⟩
      rw [Definition.code, List.length_append]
      exact Nat.add_le_add_right hle 2
    have howned := Stmt.owned_emitAll d.body none d.line 0
    rw [Definition.code, List.getElem?_append_left hlt] at hinstr
    obtain ⟨line, hline⟩ := Owned.exists_owner howned hinstr hrouting
    refine ⟨line, _, .function hd, ?_⟩
    rw [Definition.owners, List.getElem?_append_left (howned.length_eq ▸ hlt)]
    exact hline

/-- The return at the end of a function consists of two instructions. -/
theorem Program.HasCode.epilogue {program : Program} {code : Code} {i : Nat} {instr : Instr}
    (hcode : program.HasCode code) (hend : code.Epilogue i)
    (hinstr : code.instrs[i]? = some instr) : instr = .const .none ∨ instr = .leave := by
  cases hcode with
  | script => exact absurd hend.1 (by simp [Program.emit, Code.isModule])
  | @function d hd =>
    have hlast := hend.2
    rw [Definition.code, List.length_append] at hlast
    rw [Definition.code, List.getElem?_append_right (Nat.le_of_add_le_add_right hlast)] at hinstr
    rcases hi : i - (Stmt.emitAll none d.line 0 d.body).length with _ | _ | k <;>
      rw [hi] at hinstr <;> cases hinstr
    · exact .inl rfl
    · exact .inr rfl

/-- In the codes of a program every instruction that can fail has an owner, other than a return. -/
theorem Program.exists_owns_of_mayFail {program : Program} {code : Code} {i : Nat} {instr : Instr}
    (hlegal : Legal .outermost program) (hcode : program.HasCode code)
    (hinstr : code.instrs[i]? = some instr) (hfail : instr.mayFail = true)
    (hleave : instr ≠ .leave) : ∃ line, program.Owns code i line := by
  refine program.exists_owns hlegal hcode hinstr ?_ fun hend => ?_
  · cases instr <;> first | rfl | cases hfail
  · rcases hcode.epilogue hend hinstr with rfl | rfl
    · cases hfail
    · exact hleave rfl

/-- The lines that own instructions of a program are lines of its text. -/
theorem Program.Owns.ne_zero {program : Program} {code : Code} {i : Nat} {line : Line}
    (h : program.Owns code i line) (hascends : Ascending program) : line ≠ 0 := by
  obtain ⟨owners, htable, howner⟩ := h
  have hmem := List.mem_of_getElem? howner
  cases htable with
  | script => exact hascends.ne_zero line (Stmt.mem_linesOf_of_mem_owners hmem)
  | @function d hd =>
    rcases List.mem_append.1 hmem with hmem | hmem
    · have hbody := (hascends.stmt_of_mem hd).define_body
      exact hbody.ne_zero line (Stmt.mem_linesOf_of_mem_owners hmem)
    · simp at hmem

end Linewise
