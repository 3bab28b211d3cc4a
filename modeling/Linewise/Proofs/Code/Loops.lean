import Linewise.Proofs.Code.Flow

/-!
# Loops of a code

A loop over items lies within the instructions of the statement that it is, from its head to its
exit. So the number of loops around an address can be told from the statements around it: it is
the same for all statements of a body, and one more in the body of a loop over items
(`Code.Surrounds`).
-/

namespace Linewise

namespace Instr

variable {P : Nat → Instr → Prop} {start : Nat} {instrs : List Instr}

theorem allFrom_of_forall (h : ∀ instr ∈ instrs, ∀ i, P i instr) : AllFrom P start instrs := by
  induction instrs generalizing start with
  | nil => trivial
  | cons instr rest ih =>
    obtain ⟨hinstr, hrest⟩ := List.forall_mem_cons.1 h
    exact ⟨hinstr start, ih hrest⟩

/-- The instruction computes with operands. -/
def isOperation : Instr → Bool
  | .const _ | .load _ | .buildList _ | .index | .unary _ | .binary _ | .call _
  | .jumpIfFalseOrPop _ | .jumpIfTrueOrPop _ => true
  | _ => false

/-- The instruction computes with operands and does not jump further than to an address. -/
structure Computes (hi : Nat) (instr : Instr) : Prop where
  operation : instr.isOperation = true
  bounded : ∀ target ∈ instr.targets, target ≤ hi

/-- An instruction that computes is no head of a loop. -/
theorem Computes.local {hi lo hi' i : Nat} {instr : Instr} (h : instr.Computes hi) :
    Local lo hi' i instr := by
  rintro exit rfl
  exact absurd h.operation Bool.false_ne_true

end Instr

section Computes

variable {hi start : Nat}

open Instr (Computes)

mutual

/-- An expression only computes, and jumps no further than to its end. -/
theorem Expr.computes_emit {start : Nat} : ∀ {e : Expr Int64}, start + e.codeSize ≤ hi →
    ∀ instr ∈ e.emit start, instr.Computes hi
  | .int _, _ | .float _, _ | .str _, _ | .bool _, _ | .none, _ | .ident _, _ =>
    List.forall_mem_singleton.2 ⟨rfl, nofun⟩
  | .list items, h => by
    simp only [codeSize] at h
    simp only [emit, List.forall_mem_append, List.forall_mem_singleton]
    exact ⟨Expr.computes_emitAll (by omega), rfl, nofun⟩
  | .subscript object index, h => by
    simp only [codeSize] at h
    simp only [emit, List.forall_mem_append, List.forall_mem_singleton]
    exact ⟨⟨Expr.computes_emit (by omega), Expr.computes_emit (by omega)⟩, rfl, nofun⟩
  | .call callee args, h => by
    simp only [codeSize] at h
    simp only [emit, List.forall_mem_append, List.forall_mem_singleton]
    exact ⟨⟨Expr.computes_emit (by omega), Expr.computes_emitAll (by omega)⟩, rfl, nofun⟩
  | .unary _ operand, h => by
    simp only [codeSize] at h
    simp only [emit, List.forall_mem_append, List.forall_mem_singleton]
    exact ⟨Expr.computes_emit (by omega), rfl, nofun⟩
  | .binary _ left right, h => by
    simp only [codeSize] at h
    simp only [emit, List.forall_mem_append, List.forall_mem_singleton]
    exact ⟨⟨Expr.computes_emit (by omega), Expr.computes_emit (by omega)⟩, rfl, nofun⟩
  | .logic op left right, h => by
    simp only [codeSize] at h
    simp only [emit, List.forall_mem_append, List.forall_mem_cons]
    -- The jump over the right operand leads to the end of the expression.
    refine ⟨Expr.computes_emit (by omega), ?_, Expr.computes_emit (by omega)⟩
    cases op <;> exact ⟨rfl, List.forall_mem_singleton.2 (by omega)⟩

theorem Expr.computes_emitAll {start : Nat} : ∀ {items : List (Expr Int64)},
    start + Expr.codeSizeOf items ≤ hi → ∀ instr ∈ Expr.emitAll start items, instr.Computes hi
  | [], _ => nofun
  | item :: rest, h => by
    simp only [codeSizeOf] at h
    simp only [emitAll, List.forall_mem_append]
    exact ⟨Expr.computes_emit (by omega), Expr.computes_emitAll (by omega)⟩

end

end Computes

/-! ## Loops lie within the statements that they are -/

section Local

open Instr (Local)

variable {lo hi : Nat}

theorem Expr.local_emit {start : Nat} (e : Expr Int64) :
    Instr.AllFrom (Local lo hi) start (e.emit start) :=
  Instr.allFrom_of_forall fun instr h _ => (Expr.computes_emit (Nat.le_refl _) instr h).local

theorem local_emitLine {before line : Line} {start : Nat} :
    Instr.AllFrom (Local lo hi) start (emitLine before line) := by
  rw [emitLine]
  split
  · trivial
  · exact ⟨nofun, trivial⟩

mutual

/-- The loops over items in a statement lie within any bounds that the statement lies within. -/
theorem Stmt.local_emit {loop : Option Loop} {start : Nat} : ∀ {stmt : Stmt Int64}, lo ≤ start →
    start + stmt.codeSize (loop.map Loop.kind) ≤ hi →
    Instr.AllFrom (Local lo hi) start (stmt.emit loop start)
  | .expr _ value, _, _ | .assign _ _ value, _, _ => by
    simp only [Stmt.emit, Instr.allFrom_append, Instr.allFrom_cons, Instr.allFrom_nil]
    exact ⟨value.local_emit, nofun, trivial⟩
  | .assignItem _ _ index value, _, _ => by
    simp only [Stmt.emit, Instr.allFrom_append, Instr.allFrom_cons, Instr.allFrom_nil,
      Expr.length_emit]
    exact ⟨⟨index.local_emit, value.local_emit⟩, nofun, trivial⟩
  | .branch line test body otherwise, hlo, hhi => by
    simp only [Stmt.codeSize] at hhi
    simp only [Stmt.emit, Instr.allFrom_append, Instr.allFrom_cons, List.length_append,
      List.length_cons, Expr.length_emit, Stmt.length_emitAll, ← Nat.add_assoc]
    rw [Nat.add_right_comm (start + test.codeSize) _ 1]
    exact ⟨⟨test.local_emit, nofun, Stmt.local_emitAll (by omega) (by omega)⟩, nofun,
      Otherwise.local_emit (by omega) (by omega)⟩
  | .whileLoop line test body, hlo, hhi => by
    simp only [Stmt.codeSize] at hhi
    simp only [Stmt.emit, List.cons_append, Instr.allFrom_append, Instr.allFrom_cons,
      Instr.allFrom_nil, Expr.length_emit]
    exact ⟨nofun, nofun, ⟨test.local_emit, nofun,
      Stmt.local_emitAll (by omega) (by simp only [Option.map_some]; omega)⟩, nofun, trivial⟩
  | .forLoop line var iterable body, hlo, hhi => by
    simp only [Stmt.codeSize] at hhi
    simp only [Stmt.emit, Instr.allFrom_append, Instr.allFrom_cons, Instr.allFrom_nil,
      Expr.length_emit]
    refine ⟨⟨iterable.local_emit, nofun, nofun, nofun, ?_, nofun,
      Stmt.local_emitAll (by omega) (by simp only [Option.map_some]; omega)⟩, nofun, trivial⟩
    -- This loop ends with the statement.
    rintro exit ⟨⟩
    omega
  | .define .., _, _ | .leave _ none, _, _ => ⟨nofun, nofun, trivial⟩
  | .leave _ (some value), _, _ => by
    simp only [Stmt.emit, Instr.allFrom_append, Instr.allFrom_cons, Instr.allFrom_nil]
    exact ⟨value.local_emit, nofun, trivial⟩
  | .breakLoop _, _, _ => by
    rcases loop with _ | ⟨_ | _, _, _⟩
    · trivial
    · exact ⟨nofun, trivial⟩
    · exact ⟨nofun, nofun, trivial⟩
  | .continueLoop _, _, _ => by
    cases loop with
    | none => trivial
    | some _ => exact ⟨nofun, trivial⟩
  | .pass _, _, _ => trivial

/-- The loops over items in what a conditional goes on with lie within any bounds that this lies
    within. -/
theorem Otherwise.local_emit {loop : Option Loop} {finish start : Nat} :
    ∀ {otherwise : Otherwise Int64}, lo ≤ start →
    start + otherwise.codeSize (loop.map Loop.kind) ≤ hi →
    Instr.AllFrom (Local lo hi) start (otherwise.emit loop finish start)
  | .nothing, _, _ => trivial
  | .body body, hlo, hhi => Stmt.local_emitAll hlo hhi
  | .arm line test body otherwise, hlo, hhi => by
    simp only [Otherwise.codeSize] at hhi
    simp only [Otherwise.emit, List.cons_append, Instr.allFrom_append, Instr.allFrom_cons,
      List.length_append, List.length_cons, Expr.length_emit, Stmt.length_emitAll, ← Nat.add_assoc]
    rw [Nat.add_right_comm (start + 1 + test.codeSize) _ 1]
    exact ⟨nofun, ⟨test.local_emit, nofun, Stmt.local_emitAll (by omega) (by omega)⟩, nofun,
      Otherwise.local_emit (by omega) (by omega)⟩

/-- The loops over items in statements lie within any bounds that the statements lie within. -/
theorem Stmt.local_emitAll {loop : Option Loop} {before : Line} {start : Nat} :
    ∀ {stmts : List (Stmt Int64)}, lo ≤ start →
    start + Stmt.codeSizeOf (loop.map Loop.kind) before stmts ≤ hi →
    Instr.AllFrom (Local lo hi) start (Stmt.emitAll loop before start stmts)
  | [], _, _ => trivial
  | stmt :: rest, hlo, hhi => by
    simp only [Stmt.codeSizeOf] at hhi
    simp only [Stmt.emitAll, Instr.allFrom_append, List.length_append, length_emitLine,
      Stmt.length_emit, ← Nat.add_assoc]
    exact ⟨⟨local_emitLine, Stmt.local_emit (by omega) (by omega)⟩,
      Stmt.local_emitAll (by omega) (by omega)⟩

end

end Local

section Outside

variable {i start start' : Nat} {loop : Option Loop}

/-- There is no loop in an expression. -/
@[simp]
theorem Expr.loopsAround_emit (e : Expr Int64) :
    Instr.loopsAround i start (e.emit start') = 0 := by
  have hlocal : Instr.AllFrom (Instr.Local (i + 1) 0) start (e.emit start') :=
    Instr.allFrom_of_forall fun instr h _ => (Expr.computes_emit (Nat.le_refl _) instr h).local
  exact Instr.loopsAround_eq_zero hlocal (.inl (Nat.lt_succ_self i))

@[simp]
theorem loopsAround_emitLine {before line : Line} :
    Instr.loopsAround i start (emitLine before line) = 0 := by
  have hlocal : Instr.AllFrom (Instr.Local (i + 1) 0) start (emitLine before line) :=
    local_emitLine
  exact Instr.loopsAround_eq_zero hlocal (.inl (Nat.lt_succ_self i))

/-- No loop of a statement is around an instruction outside of it. -/
theorem Stmt.loopsAround_emit {stmt : Stmt Int64}
    (h : i < start ∨ start + stmt.codeSize (loop.map Loop.kind) ≤ i) :
    Instr.loopsAround i start (stmt.emit loop start) = 0 :=
  Instr.loopsAround_eq_zero (Stmt.local_emit (Nat.le_refl _) (Nat.le_refl _)) h

theorem Otherwise.loopsAround_emit {otherwise : Otherwise Int64} {finish : Nat}
    (h : i < start ∨ start + otherwise.codeSize (loop.map Loop.kind) ≤ i) :
    Instr.loopsAround i start (otherwise.emit loop finish start) = 0 :=
  Instr.loopsAround_eq_zero (Otherwise.local_emit (Nat.le_refl _) (Nat.le_refl _)) h

theorem Stmt.loopsAround_emitAll {stmts : List (Stmt Int64)} {before : Line}
    (h : i < start ∨ start + Stmt.codeSizeOf (loop.map Loop.kind) before stmts ≤ i) :
    Instr.loopsAround i start (Stmt.emitAll loop before start stmts) = 0 :=
  Instr.loopsAround_eq_zero (Stmt.local_emitAll (Nat.le_refl _) (Nat.le_refl _)) h

end Outside

namespace Code

/-- Around the addresses of some instructions, from `start` on, there are `depth` loops over
    items besides those among them. -/
def Surrounds (code : Code) (depth start : Nat) (instrs : List Instr) : Prop :=
  ∀ i, start ≤ i → i < start + instrs.length →
    code.loopsAround i = depth + Instr.loopsAround i start instrs

variable {code : Code} {loop : Option Loop} {before line : Line} {depth start finish : Nat}
  {test iterable : Expr Int64} {var : String} {stmt : Stmt Int64} {body rest : List (Stmt Int64)}
  {otherwise : Otherwise Int64}

theorem surrounds_instrs : code.Surrounds 0 0 code.instrs :=
  fun _ _ _ => (Nat.zero_add _).symm

namespace Surrounds

/-- An instruction that opens no loop can be left out in front. -/
theorem tail {instr : Instr} {instrs : List Instr}
    (h : code.Surrounds depth start (instr :: instrs))
    (hinstr : ∀ i, instr.loopsOver i start = false) : code.Surrounds depth (start + 1) instrs := by
  intro i hlo hhi
  rw [h i (by omega) (by rw [List.length_cons]; omega), Instr.loopsAround_cons, hinstr]
  rfl

/-- Instructions without a loop can be left out behind. -/
theorem left {instrs instrs' : List Instr} (h : code.Surrounds depth start (instrs ++ instrs'))
    (hright : ∀ i, Instr.loopsAround i (start + instrs.length) instrs' = 0) :
    code.Surrounds depth start instrs := by
  intro i hlo hhi
  rw [h i hlo (by rw [List.length_append]; omega), Instr.loopsAround_append, hright, Nat.add_zero]

/-- The parts of a body. -/
theorem cons (h : code.Surrounds depth start (Stmt.emitAll loop before start (stmt :: rest))) :
    (stmt.line ≠ before → code.loopsAround start = depth) ∧
      code.Surrounds depth (start + lineSize before stmt.line)
        (stmt.emit loop (start + lineSize before stmt.line)) ∧
      code.Surrounds depth
        (start + lineSize before stmt.line + stmt.codeSize (loop.map Loop.kind))
        (Stmt.emitAll loop stmt.line
          (start + lineSize before stmt.line + stmt.codeSize (loop.map Loop.kind)) rest) := by
  simp only [Surrounds, Stmt.emitAll, Instr.loopsAround_append, List.length_append,
    length_emitLine, Stmt.length_emit, Stmt.length_emitAll, loopsAround_emitLine, Nat.zero_add,
    ← Nat.add_assoc] at h ⊢
  refine ⟨fun hline => ?_, fun i hlo hhi => ?_, fun i hlo hhi => ?_⟩
  · have hsize : lineSize before stmt.line = 1 := if_neg hline
    rw [h start (Nat.le_refl _) (by omega), Stmt.loopsAround_emit (.inl (by omega)),
      Stmt.loopsAround_emitAll (.inl (by omega)), Nat.add_zero]
  · rw [h i (by omega) (by omega), Stmt.loopsAround_emitAll (.inl hhi), Nat.add_zero]
  · rw [h i (by omega) (by omega), Stmt.loopsAround_emit (.inr hlo), Nat.add_zero]

/-- The body of an arm of a conditional, and what follows when the test fails. -/
theorem ofArm {inner next : Nat} (h : code.Surrounds depth start (test.emit start ++
      .jumpIfFalse next :: Stmt.emitAll loop line inner body ++
      .jump finish :: otherwise.emit loop finish next))
    (hinner : inner = start + test.codeSize + 1)
    (hnext : next = inner + Stmt.codeSizeOf (loop.map Loop.kind) line body + 1) :
    code.Surrounds depth inner (Stmt.emitAll loop line inner body) ∧
      code.Surrounds depth next (otherwise.emit loop finish next) := by
  subst hinner hnext
  simp only [Surrounds, Instr.loopsAround_append, Instr.loopsAround_cons, Instr.loopsOver,
    List.length_append, List.length_cons, Expr.length_emit, Stmt.length_emitAll,
    Otherwise.length_emit, Expr.loopsAround_emit, Nat.zero_add, Bool.false_eq_true, if_false,
    Nat.add_zero, ← Nat.add_assoc] at h ⊢
  rw [Nat.add_right_comm (start + test.codeSize) _ 1] at h
  refine ⟨fun i hlo hhi => ?_, fun i hlo hhi => ?_⟩
  · rw [h i (by omega) (by omega), Otherwise.loopsAround_emit (.inl (by omega)), Nat.add_zero]
  · rw [h i (by omega) (by omega), Stmt.loopsAround_emitAll (.inr (by omega)), Nat.add_zero]

/-- The body of a conditional, and what follows when its test fails. -/
theorem branch
    (h : code.Surrounds depth start ((Stmt.branch line test body otherwise).emit loop start)) :
    let inner := start + test.codeSize + 1
    let next := inner + Stmt.codeSizeOf (loop.map Loop.kind) line body + 1
    let finish := next + otherwise.codeSize (loop.map Loop.kind)
    code.Surrounds depth inner (Stmt.emitAll loop line inner body) ∧
      code.Surrounds depth next (otherwise.emit loop finish next) := by
  rw [Stmt.emit] at h
  exact h.ofArm rfl rfl

/-- The mark of an arm of a conditional, its body, and what follows when its test fails. -/
theorem arm (h : code.Surrounds depth start
      ((Otherwise.arm line test body otherwise).emit loop finish start)) :
    let inner := start + 1 + test.codeSize + 1
    let next := inner + Stmt.codeSizeOf (loop.map Loop.kind) line body + 1
    code.loopsAround start = depth ∧
      code.Surrounds depth inner (Stmt.emitAll loop line inner body) ∧
      code.Surrounds depth next (otherwise.emit loop finish next) := by
  rw [Otherwise.emit, List.cons_append, List.cons_append] at h
  refine ⟨?_, (h.tail fun _ => rfl).ofArm rfl rfl⟩
  -- No loop among these instructions begins before the mark, so none of them is around it.
  rw [h start (Nat.le_refl _) (by simp)]
  simp only [Instr.loopsAround_append, Instr.loopsAround_cons, Instr.loopsOver,
    List.length_append, List.length_cons, Expr.length_emit, Stmt.length_emitAll,
    Expr.loopsAround_emit, Nat.zero_add, Bool.false_eq_true, if_false, Nat.add_zero,
    ← Nat.add_assoc]
  rw [Nat.add_right_comm (start + 1 + test.codeSize) _ 1,
    Stmt.loopsAround_emitAll (.inl (by omega)), Otherwise.loopsAround_emit (.inl (by omega))]
  rfl

/-- The head of a loop that tests before each round, and its body. -/
theorem whileLoop
    (h : code.Surrounds depth start ((Stmt.whileLoop line test body).emit loop start)) :
    let inner := start + 1 + 1 + test.codeSize + 1
    let exit := inner + Stmt.codeSizeOf (some .testing) line body + 1
    code.loopsAround (start + 1) = depth ∧
      code.Surrounds depth inner
        (Stmt.emitAll (some ⟨.testing, start + 1, exit⟩) line inner body) := by
  simp only [Surrounds, Stmt.emit, Instr.loopsAround_append, Instr.loopsAround_cons,
    Instr.loopsAround_nil, Instr.loopsOver, List.cons_append, List.length_append, List.length_cons,
    List.length_nil, Expr.length_emit, Stmt.length_emitAll, Expr.loopsAround_emit, Nat.zero_add,
    Bool.false_eq_true, if_false, Nat.add_zero, Option.map_some, ← Nat.add_assoc] at h ⊢
  refine ⟨?_, fun i hlo hhi => h i (by omega) (by omega)⟩
  rw [h (start + 1) (by omega) (by omega), Stmt.loopsAround_emitAll (.inl (by omega)), Nat.add_zero]

/-- The head of a loop over items and its body, which have this loop around them. -/
theorem forLoop
    (h : code.Surrounds depth start ((Stmt.forLoop line var iterable body).emit loop start)) :
    let head := start + iterable.codeSize + 2
    let exit := head + 3 + Stmt.codeSizeOf (some .iterating) line body + 1
    code.loopsAround head = depth + 1 ∧
      code.Surrounds (depth + 1) (head + 3)
        (Stmt.emitAll (some ⟨.iterating, head, exit⟩) line (head + 3) body) := by
  simp only [Surrounds, Stmt.emit, Instr.loopsAround_append, Instr.loopsAround_cons,
    Instr.loopsAround_nil, Instr.loopsOver, List.length_append, List.length_cons,
    List.length_nil, Expr.length_emit, Stmt.length_emitAll, Expr.loopsAround_emit, Nat.zero_add,
    Bool.false_eq_true, if_false, Nat.add_zero, Option.map_some, Bool.and_eq_true,
    decide_eq_true_eq, Nat.add_assoc, Nat.reduceAdd] at h ⊢
  refine ⟨?_, fun i hlo hhi => ?_⟩
  · rw [h _ (by omega) (by omega), if_pos (by omega), Stmt.loopsAround_emitAll (.inl (by omega))]
  · rw [h i (by omega) (by omega), if_pos (by omega), Nat.add_comm _ 1]

end Surrounds

end Code

end Linewise
