import Linewise.Proofs.Code.Layout
import Linewise.Proofs.Value.Functions

/-!
# Guarded codes

In the code of a program every jump goes forward, or back to the `line` instruction at the head of
a loop. The functions that a code makes have codes of this kind too, and its constants hold none
(`Code.Guarded`). So a code cannot run in circles without reaching a line.
-/

namespace Linewise

/-- The addresses that an instruction may go on at, other than that of the next one. -/
def Instr.targets : Instr → List Nat
  | .jump target | .jumpIfFalse target | .jumpIfFalseOrPop target | .jumpIfTrueOrPop target
  | .iterNext target => [target]
  | .line _ | .const _ | .load _ | .store _ | .storeIndex _ | .buildList _ | .index | .unary _
  | .binary _ | .call _ | .leave | .pop | .makeFunction _ | .iterStart | .iterDrop => []

/-- At an address there is a `line` instruction. -/
def Code.HasLineAt (code : Code) (i : Nat) : Prop := ∃ line, code.instrs[i]? = some (.line line)

/-- No jump goes back other than to a `line` instruction, in a code and in those of the functions
    that it makes. -/
inductive Code.Guarded : Code → Prop
  | mk {code : Code}
      (jumps : ∀ {i instr target}, code.instrs[i]? = some instr → target ∈ instr.targets →
        i < target ∨ code.HasLineAt target)
      (const : ∀ {v}, .const v ∈ code.instrs → v.functions = [])
      (makeFunction : ∀ {inner}, .makeFunction inner ∈ code.instrs → Guarded inner) :
      Guarded code

namespace Code

/-- What a guarded code has at an address. -/
structure Guards (code : Code) (i : Nat) (instr : Instr) : Prop where
  jumps : ∀ {target}, target ∈ instr.targets → i < target ∨ code.HasLineAt target
  const : ∀ {v}, instr = .const v → v.functions = []
  makeFunction : ∀ {inner}, instr = .makeFunction inner → inner.Guarded

variable {code : Code} {start i target : Nat} {instr : Instr}

/-- A code is guarded when each of its instructions is at its address. -/
theorem guarded_of_allFrom (h : Instr.AllFrom code.Guards 0 code.instrs) : code.Guarded := by
  rw [Instr.allFrom_iff] at h
  refine .mk ?_ ?_ ?_
  · intro i instr target hinstr htarget
    simpa using (h i instr hinstr).jumps htarget
  · intro v hv
    obtain ⟨i, hi⟩ := List.getElem?_of_mem hv
    exact (h i _ hi).const rfl
  · intro inner hinner
    obtain ⟨i, hi⟩ := List.getElem?_of_mem hinner
    exact (h i _ hi).makeFunction rfl

/-- An instruction that jumps forward or to a `line` instruction. -/
theorem guards_jump (htargets : instr.targets = [target])
    (h : i < target ∨ code.HasLineAt target) : code.Guards i instr where
  jumps := by
    intro t ht
    rw [htargets, List.mem_singleton] at ht
    rwa [ht]
  const := by
    rintro v rfl
    cases htargets
  makeFunction := by
    rintro inner rfl
    cases htargets

theorem guards_const {v : Value Code} (hv : v.functions = []) : code.Guards i (.const v) :=
  ⟨nofun, fun h => by cases h; exact hv, nofun⟩

end Code

/-- The code around statements that end before `finish` is that of a loop: a `continue` leads to
    a `line` instruction, and a `break` forward. -/
def Loop.Encloses (loop : Loop) (code : Code) (finish : Nat) : Prop :=
  code.HasLineAt loop.head ∧ finish ≤ loop.exit

theorem Loop.Encloses.mono {loop : Loop} {code : Code} {finish finish' : Nat}
    (h : loop.Encloses code finish) (hle : finish' ≤ finish) : loop.Encloses code finish' :=
  ⟨h.1, Nat.le_trans hle h.2⟩

variable {code : Code}

mutual

/-- The only jumps of an expression are those over the right operand of a logical operator, which go
    forward. -/
theorem Expr.guards_emit (start : Nat) :
    ∀ e : Expr Int64, Instr.AllFrom code.Guards start (e.emit start)
  | .int _ | .float _ | .str _ | .bool _ | .none => ⟨Code.guards_const rfl, trivial⟩
  | .ident _ => ⟨⟨nofun, nofun, nofun⟩, trivial⟩
  | .list items => by
    simp only [emit, Instr.allFrom_append, Instr.allFrom_cons, Instr.allFrom_nil]
    exact ⟨Expr.guards_emitAll start items, ⟨nofun, nofun, nofun⟩, trivial⟩
  | .subscript object index => by
    simp only [emit, Instr.allFrom_append, Instr.allFrom_cons, Instr.allFrom_nil, length_emit]
    exact ⟨⟨Expr.guards_emit _ object, Expr.guards_emit _ index⟩, ⟨nofun, nofun, nofun⟩, trivial⟩
  | .call callee args => by
    simp only [emit, Instr.allFrom_append, Instr.allFrom_cons, Instr.allFrom_nil, length_emit]
    exact ⟨⟨Expr.guards_emit _ callee, Expr.guards_emitAll _ args⟩, ⟨nofun, nofun, nofun⟩, trivial⟩
  | .unary _ operand => by
    simp only [emit, Instr.allFrom_append, Instr.allFrom_cons, Instr.allFrom_nil]
    exact ⟨Expr.guards_emit _ operand, ⟨nofun, nofun, nofun⟩, trivial⟩
  | .binary _ left right => by
    simp only [emit, Instr.allFrom_append, Instr.allFrom_cons, Instr.allFrom_nil, length_emit]
    exact ⟨⟨Expr.guards_emit _ left, Expr.guards_emit _ right⟩, ⟨nofun, nofun, nofun⟩, trivial⟩
  | .logic op left right => by
    simp only [emit, Instr.allFrom_append, Instr.allFrom_cons, length_emit]
    refine ⟨Expr.guards_emit _ left, ?_, Expr.guards_emit _ right⟩
    cases op <;> exact Code.guards_jump rfl (.inl (by omega))

/-- The jumps of expressions are those of each of them. -/
theorem Expr.guards_emitAll (start : Nat) :
    ∀ items : List (Expr Int64), Instr.AllFrom code.Guards start (Expr.emitAll start items)
  | [] => trivial
  | item :: rest => by
    simp only [emitAll, Instr.allFrom_append, length_emit]
    exact ⟨Expr.guards_emit _ item, Expr.guards_emitAll _ rest⟩

end

mutual

/-- The jumps of a statement go forward, but for those to the head of a loop: its own at the end of
    each round, and those of every `continue` in it. -/
theorem Stmt.guards_emit : ∀ (stmt : Stmt Int64) {code : Code} {loop : Option Loop} {start : Nat},
    code.Holds start (stmt.emit loop start) →
    (∀ l, loop = some l → l.Encloses code (start + stmt.codeSize (loop.map Loop.kind))) →
    Instr.AllFrom code.Guards start (stmt.emit loop start)
  | .expr _ value, _, _, _, _, _ | .assign _ _ value, _, _, _, _, _ => by
    simp only [Stmt.emit, Instr.allFrom_append, Instr.allFrom_cons, Instr.allFrom_nil]
    exact ⟨Expr.guards_emit _ value, ⟨nofun, nofun, nofun⟩, trivial⟩
  | .assignItem _ _ index value, _, _, _, _, _ => by
    simp only [Stmt.emit, Instr.allFrom_append, Instr.allFrom_cons, Instr.allFrom_nil,
      Expr.length_emit]
    exact ⟨⟨Expr.guards_emit _ index, Expr.guards_emit _ value⟩, ⟨nofun, nofun, nofun⟩, trivial⟩
  | .branch line test body otherwise, code, loop, start, hcode, hloop => by
    simp only [Stmt.emit, Code.holds_append, Code.holds_cons, Instr.allFrom_append,
      Instr.allFrom_cons, List.length_append, List.length_cons, Expr.length_emit,
      Stmt.length_emitAll, ← Nat.add_assoc] at hcode ⊢
    rw [Nat.add_right_comm (start + test.codeSize) _ 1] at hcode ⊢
    obtain ⟨⟨-, -, hbody⟩, -, hotherwise⟩ := hcode
    simp only [Stmt.codeSize, ← Nat.add_assoc] at hloop
    -- The loop encloses what ends before the statement does, so also its parts.
    refine ⟨⟨Expr.guards_emit _ test, Code.guards_jump rfl (.inl (by omega)),
      Stmt.guards_emitAll body hbody fun l hl => (hloop l hl).mono (by omega)⟩,
      Code.guards_jump rfl (.inl (by omega)),
      Otherwise.guards_emit otherwise hotherwise (Nat.le_refl _) hloop⟩
  | .whileLoop line test body, code, loop, start, hcode, hloop => by
    have hhead : code.HasLineAt (start + 1) := ⟨line, hcode.whileLoop.choose_spec.2.1.atHead⟩
    simp only [Stmt.emit, List.cons_append, Code.holds_append, Code.holds_cons,
      Instr.allFrom_append, Instr.allFrom_cons, Instr.allFrom_nil, List.length_append,
      List.length_cons, Expr.length_emit, Stmt.length_emitAll, Option.map_some, and_true,
      ← Nat.add_assoc] at hcode ⊢
    -- The first jump skips the head, the test jumps to the exit, and the last jump goes back.
    obtain ⟨-, -, ⟨-, -, hbody⟩, -, -⟩ := hcode
    refine ⟨Code.guards_jump rfl (.inl (by omega)), ⟨nofun, nofun, nofun⟩,
      ⟨Expr.guards_emit _ test, Code.guards_jump rfl (.inl (by omega)),
        Stmt.guards_emitAll body hbody ?_⟩, Code.guards_jump rfl (.inr hhead)⟩
    -- The loop around the body is this one, not the one around the statement.
    rintro l ⟨⟩
    exact ⟨hhead, by simp only [Option.map_some]; omega⟩
  | .forLoop line var iterable body, code, loop, start, hcode, hloop => by
    have hhead : code.HasLineAt (start + iterable.codeSize + 2) := by
      obtain ⟨head, exit, -, -, -, rfl, hfor, -⟩ := hcode.forLoop
      exact ⟨line, hfor.atHead⟩
    simp only [Stmt.emit, Code.holds_append, Code.holds_cons, Instr.allFrom_append,
      Instr.allFrom_cons, Instr.allFrom_nil, List.length_append, List.length_cons,
      Expr.length_emit, Stmt.length_emitAll, Option.map_some, and_true, ← Nat.add_assoc] at hcode ⊢
    -- As in a loop on a condition; what takes the next item jumps to the exit instead of a test.
    obtain ⟨⟨-, -, -, -, -, -, hbody⟩, -, -⟩ := hcode
    refine ⟨⟨Expr.guards_emit _ iterable, ⟨nofun, nofun, nofun⟩,
      Code.guards_jump rfl (.inl (by omega)), ⟨nofun, nofun, nofun⟩,
      Code.guards_jump rfl (.inl (by omega)), ⟨nofun, nofun, nofun⟩,
      Stmt.guards_emitAll body hbody ?_⟩, Code.guards_jump rfl (.inr hhead)⟩
    rintro l ⟨⟩
    exact ⟨hhead, by simp only [Option.map_some]; omega⟩
  | .define line name params body ident, code, _, start, _, _ => by
    let inner : Code :=
      ⟨name, params, Stmt.emitAll none line 0 body ++ [.const .none, .leave], line, ident⟩
    have hinner : inner.Guarded := by
      -- The body stands in a code of its own, and no loop reaches into it.
      have hcode := inner.holds_instrs
      refine Code.guarded_of_allFrom ?_
      simp only [inner, Code.holds_append, Instr.allFrom_append] at hcode ⊢
      exact ⟨Stmt.guards_emitAll body hcode.1 nofun, Code.guards_const rfl,
        ⟨nofun, nofun, nofun⟩, trivial⟩
    exact ⟨⟨nofun, nofun, fun h => by cases h; exact hinner⟩, ⟨nofun, nofun, nofun⟩, trivial⟩
  | .leave _ none, _, _, _, _, _ => ⟨Code.guards_const rfl, ⟨nofun, nofun, nofun⟩, trivial⟩
  | .leave _ (some value), _, _, _, _, _ => by
    simp only [Stmt.emit, Instr.allFrom_append, Instr.allFrom_cons, Instr.allFrom_nil]
    exact ⟨Expr.guards_emit _ value, ⟨nofun, nofun, nofun⟩, trivial⟩
  | .breakLoop _, code, loop, start, _, hloop => by
    cases loop with
    | none => trivial
    | some l =>
      obtain ⟨-, hfinish⟩ := hloop l rfl
      obtain ⟨kind, head, exit⟩ := l
      cases kind with
      | testing => exact ⟨Code.guards_jump rfl (.inl hfinish), trivial⟩
      | iterating => exact ⟨⟨nofun, nofun, nofun⟩, Code.guards_jump rfl (.inl hfinish), trivial⟩
  | .continueLoop _, code, loop, start, _, hloop => by
    cases loop with
    | none => trivial
    | some l => exact ⟨Code.guards_jump rfl (.inr (hloop l rfl).1), trivial⟩
  | .pass _, _, _, _, _, _ => trivial

/-- The jumps of what a conditional goes on with are like those of its body; the one at the end of
    each arm goes forward to the end of the conditional. -/
theorem Otherwise.guards_emit : ∀ (otherwise : Otherwise Int64) {code : Code}
    {loop : Option Loop} {finish start : Nat},
    code.Holds start (otherwise.emit loop finish start) →
    start + otherwise.codeSize (loop.map Loop.kind) ≤ finish →
    (∀ l, loop = some l → l.Encloses code finish) →
    Instr.AllFrom code.Guards start (otherwise.emit loop finish start)
  | .nothing, _, _, _, _, _, _, _ => trivial
  | .body body, _, _, _, _, hcode, hfinish, hloop =>
    Stmt.guards_emitAll body hcode fun l hl => ⟨(hloop l hl).1, Nat.le_trans hfinish (hloop l hl).2⟩
  | .arm line test body otherwise, code, loop, finish, start, hcode, hfinish, hloop => by
    simp only [Otherwise.emit, List.cons_append, Code.holds_append, Code.holds_cons,
      Instr.allFrom_append, Instr.allFrom_cons, List.length_append, List.length_cons,
      Expr.length_emit, Stmt.length_emitAll, ← Nat.add_assoc] at hcode ⊢
    rw [Nat.add_right_comm (start + 1 + test.codeSize) _ 1] at hcode ⊢
    obtain ⟨-, ⟨-, -, hbody⟩, -, hotherwise⟩ := hcode
    simp only [Otherwise.codeSize, ← Nat.add_assoc] at hfinish
    exact ⟨⟨nofun, nofun, nofun⟩, ⟨Expr.guards_emit _ test, Code.guards_jump rfl (.inl (by omega)),
      Stmt.guards_emitAll body hbody fun l hl => (hloop l hl).mono (by omega)⟩,
      Code.guards_jump rfl (.inl (by omega)),
      Otherwise.guards_emit otherwise hotherwise hfinish hloop⟩

/-- The jumps of statements are those of each of them. -/
theorem Stmt.guards_emitAll : ∀ (stmts : List (Stmt Int64)) {code : Code} {loop : Option Loop}
    {before : Line} {start : Nat},
    code.Holds start (Stmt.emitAll loop before start stmts) →
    (∀ l, loop = some l →
      l.Encloses code (start + Stmt.codeSizeOf (loop.map Loop.kind) before stmts)) →
    Instr.AllFrom code.Guards start (Stmt.emitAll loop before start stmts)
  | [], _, _, _, _, _, _ => trivial
  | stmt :: rest, code, loop, before, start, hcode, hloop => by
    simp only [Stmt.emitAll, Code.holds_append, Instr.allFrom_append, List.length_append,
      length_emitLine, Stmt.length_emit, ← Nat.add_assoc] at hcode ⊢
    obtain ⟨⟨-, hstmt⟩, hrest⟩ := hcode
    simp only [Stmt.codeSizeOf, ← Nat.add_assoc] at hloop
    -- The loop around encloses each statement, as all of them end before its exit.
    refine ⟨⟨?_, Stmt.guards_emit stmt hstmt fun l hl => (hloop l hl).mono (by omega)⟩,
      Stmt.guards_emitAll rest hrest hloop⟩
    rw [emitLine]
    split
    · trivial
    · exact ⟨⟨nofun, nofun, nofun⟩, trivial⟩

end

/-- The code of a program is guarded. -/
theorem Program.guarded_emit (program : Program) : program.emit.Guarded :=
  Code.guarded_of_allFrom (Stmt.guards_emitAll program program.emit.holds_instrs nofun)

end Linewise
