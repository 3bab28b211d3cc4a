import Linewise.Code.Emission

/-!
# The layout of emitted code

The instructions of every construct are as many as its `codeSize` says, so that each jump is
emitted with the address that its target has in the end. Which instructions stand in a code from
an address on (`Code.Holds`) can be told part by part.
-/

namespace Linewise

/-- All of some instructions are as `P` says at their addresses, from `start` on. -/
def Instr.AllFrom (P : Nat → Instr → Prop) (start : Nat) : List Instr → Prop
  | [] => True
  | instr :: rest => P start instr ∧ AllFrom P (start + 1) rest

namespace Instr

variable {P : Nat → Instr → Prop} {start : Nat} {instr : Instr} {instrs instrs' : List Instr}

@[simp]
theorem allFrom_nil : AllFrom P start [] := trivial

@[simp]
theorem allFrom_cons :
    AllFrom P start (instr :: instrs) ↔ P start instr ∧ AllFrom P (start + 1) instrs := Iff.rfl

/-- Instructions behind others have the addresses behind those. -/
@[simp]
theorem allFrom_append :
    AllFrom P start (instrs ++ instrs') ↔
      AllFrom P start instrs ∧ AllFrom P (start + instrs.length) instrs' := by
  induction instrs generalizing start with
  | nil => simp
  | cons instr rest ih =>
    rw [List.cons_append, allFrom_cons, ih, allFrom_cons, and_assoc, List.length_cons,
      Nat.add_assoc start, Nat.add_comm 1]

/-- All instructions are as `P` says when the one at each place is. -/
theorem allFrom_iff :
    AllFrom P start instrs ↔ ∀ i instr, instrs[i]? = some instr → P (start + i) instr := by
  induction instrs generalizing start with
  | nil => simp
  | cons first rest ih =>
    rw [allFrom_cons, ih]
    constructor
    · rintro ⟨hfirst, hrest⟩ i instr hinstr
      cases i with
      | zero => cases hinstr; exact hfirst
      | succ i => rw [Nat.add_comm i, ← Nat.add_assoc]; exact hrest i instr hinstr
    · refine fun h => ⟨h 0 first rfl, fun i instr hinstr => ?_⟩
      rw [Nat.add_assoc, Nat.add_comm 1]
      exact h (i + 1) instr hinstr

end Instr

/-- Some instructions stand in a code one after the other, from the address `start` on. -/
def Code.Holds (code : Code) (start : Nat) (instrs : List Instr) : Prop :=
  Instr.AllFrom (fun i instr => code.instrs[i]? = some instr) start instrs

namespace Code

variable {code : Code} {start : Nat} {instr : Instr} {instrs instrs' : List Instr}

@[simp]
theorem holds_cons :
    code.Holds start (instr :: instrs) ↔
      code.instrs[start]? = some instr ∧ code.Holds (start + 1) instrs := Iff.rfl

@[simp]
theorem holds_append :
    code.Holds start (instrs ++ instrs') ↔
      code.Holds start instrs ∧ code.Holds (start + instrs.length) instrs' :=
  Instr.allFrom_append

/-- A code holds its own instructions. -/
theorem holds_instrs : code.Holds 0 code.instrs :=
  Instr.allFrom_iff.2 fun i _ h => by rwa [Nat.zero_add]

end Code

mutual

/-- An expression has as many instructions as its `codeSize` says. -/
@[simp]
theorem Expr.length_emit (start : Nat) : ∀ e : Expr Int64, (e.emit start).length = e.codeSize
  | .int _ | .float _ | .str _ | .bool _ | .none | .ident _ => rfl
  | .list items => by simp [emit, codeSize, Expr.length_emitAll]
  | .subscript object index => by
    simp [emit, codeSize, Expr.length_emit _ object, Expr.length_emit _ index, Nat.add_assoc]
  | .call callee args => by
    simp [emit, codeSize, Expr.length_emit _ callee, Expr.length_emitAll, Nat.add_assoc]
  | .unary _ operand => by simp [emit, codeSize, Expr.length_emit _ operand]
  | .binary _ left right => by
    simp [emit, codeSize, Expr.length_emit _ left, Expr.length_emit _ right, Nat.add_assoc]
  | .logic _ left right => by
    simp [emit, codeSize, Expr.length_emit _ left, Expr.length_emit _ right]
    omega

@[simp]
theorem Expr.length_emitAll (start : Nat) :
    ∀ items : List (Expr Int64), (Expr.emitAll start items).length = Expr.codeSizeOf items
  | [] => rfl
  | item :: rest => by
    simp [emitAll, codeSizeOf, Expr.length_emit _ item, Expr.length_emitAll _ rest]

end

@[simp]
theorem length_emitLine (before line : Line) :
    (emitLine before line).length = lineSize before line := by
  rw [emitLine, lineSize]
  split <;> rfl

theorem Loop.length_emitBreak (loop : Loop) : loop.emitBreak.length = loop.kind.breakSize := by
  rw [Loop.emitBreak]
  cases loop.kind <;> rfl

mutual

/-- A statement has as many instructions as its `codeSize` says. -/
@[simp]
theorem Stmt.length_emit (loop : Option Loop) (start : Nat) :
    ∀ stmt : Stmt Int64, (stmt.emit loop start).length = stmt.codeSize (loop.map Loop.kind)
  | .expr _ _ | .assign .. | .assignItem .. => by
    simp [Stmt.emit, Stmt.codeSize, Nat.add_assoc]
  | .branch line _ body otherwise => by
    simp [Stmt.emit, Stmt.codeSize, Stmt.length_emitAll loop line _ body,
      Otherwise.length_emit loop _ _ otherwise]
    omega
  | .whileLoop line _ body => by
    simp [Stmt.emit, Stmt.codeSize, Stmt.length_emitAll _ line _ body]
    omega
  | .forLoop line _ _ body => by
    simp [Stmt.emit, Stmt.codeSize, Stmt.length_emitAll _ line _ body]
    omega
  | .define .. | .leave _ none | .pass _ => rfl
  | .leave _ (some _) => by simp [Stmt.emit, Stmt.codeSize, returned]
  | .breakLoop _ => by cases loop <;> simp [Stmt.emit, Stmt.codeSize, Loop.length_emitBreak]
  | .continueLoop _ => by cases loop <;> simp [Stmt.emit, Stmt.codeSize]

/-- What a conditional goes on with has as many instructions as its `codeSize` says. -/
@[simp]
theorem Otherwise.length_emit (loop : Option Loop) (finish start : Nat) :
    ∀ otherwise : Otherwise Int64,
      (otherwise.emit loop finish start).length = otherwise.codeSize (loop.map Loop.kind)
  | .nothing => rfl
  | .body body => by simp [Otherwise.emit, Otherwise.codeSize, Stmt.length_emitAll loop 0 _ body]
  | .arm line _ body otherwise => by
    simp [Otherwise.emit, Otherwise.codeSize, Stmt.length_emitAll loop line _ body,
      Otherwise.length_emit loop _ _ otherwise]
    omega

/-- Statements have as many instructions as their sizes and those of their `line` instructions come
    to. -/
@[simp]
theorem Stmt.length_emitAll (loop : Option Loop) (before : Line) (start : Nat) :
    ∀ body : List (Stmt Int64),
      (Stmt.emitAll loop before start body).length =
        Stmt.codeSizeOf (loop.map Loop.kind) before body
  | [] => rfl
  | stmt :: rest => by
    simp [Stmt.emitAll, Stmt.codeSizeOf, Stmt.length_emit loop _ stmt,
      Stmt.length_emitAll loop _ _ rest]
    omega

end

/-! ## Where the parts of a statement stand -/

namespace Code

variable {code : Code} {loop : Option Loop} {line : Line} {start finish : Nat}
  {test iterable : Expr Int64} {var : String} {body : List (Stmt Int64)}
  {otherwise : Otherwise Int64}

/-- An arm of a conditional stands from `start` on, with its test first. What follows when the
    test fails stands from `next` on. -/
structure HoldsArm (code : Code) (loop : Option Loop) (line : Line) (test : Expr Int64)
    (body : List (Stmt Int64)) (otherwise : Otherwise Int64) (start next finish : Nat) :
    Prop where
  holdsTest : code.Holds start (test.emit start)
  atJump : code.instrs[start + test.codeSize]? = some (.jumpIfFalse next)
  holdsBody : code.Holds (start + test.codeSize + 1)
    (Stmt.emitAll loop line (start + test.codeSize + 1) body)
  atLast : code.instrs[start + test.codeSize + 1 +
    Stmt.codeSizeOf (loop.map Loop.kind) line body]? = some (.jump finish)
  next_eq : next =
    start + test.codeSize + 1 + Stmt.codeSizeOf (loop.map Loop.kind) line body + 1
  holdsOtherwise : code.Holds next (otherwise.emit loop finish next)

/-- Where the parts of a conditional stand: its first arm, and behind that what follows when the
    test fails. -/
theorem Holds.branch
    (h : code.Holds start ((Stmt.branch line test body otherwise).emit loop start)) :
    ∃ next finish, code.HoldsArm loop line test body otherwise start next finish ∧
      finish = next + otherwise.codeSize (loop.map Loop.kind) ∧
      finish = start + (Stmt.branch line test body otherwise).codeSize (loop.map Loop.kind) := by
  simp only [Stmt.emit, holds_append, List.length_append, List.length_cons, Expr.length_emit,
    Stmt.length_emitAll, holds_cons, ← Nat.add_assoc] at h
  obtain ⟨⟨htest, hjump, hbody⟩, hlast, hotherwise⟩ := h
  -- The conditional jump is counted after the body here, and before it in an arm.
  rw [Nat.add_right_comm (start + test.codeSize) _ 1] at hlast hotherwise
  refine ⟨_, _, ⟨htest, hjump, hbody, hlast, rfl, hotherwise⟩, rfl, ?_⟩
  simp only [Stmt.codeSize, ← Nat.add_assoc]

/-- Where the parts of an `elif` stand: its `line` instruction, and behind that an arm as of the
    conditional itself. -/
theorem Holds.arm
    (h : code.Holds start ((Otherwise.arm line test body otherwise).emit loop finish start)) :
    ∃ next, code.instrs[start]? = some (.line line) ∧
      code.HoldsArm loop line test body otherwise (start + 1) next finish ∧
      next + otherwise.codeSize (loop.map Loop.kind) =
        start + (Otherwise.arm line test body otherwise).codeSize (loop.map Loop.kind) := by
  simp only [Otherwise.emit, List.cons_append, holds_append, List.length_append,
    List.length_cons, Expr.length_emit, Stmt.length_emitAll, holds_cons, ← Nat.add_assoc] at h
  obtain ⟨hline, ⟨htest, hjump, hbody⟩, hlast, hotherwise⟩ := h
  rw [Nat.add_right_comm (start + 1 + test.codeSize) _ 1] at hlast hotherwise
  refine ⟨_, hline, ⟨htest, hjump, hbody, hlast, rfl, hotherwise⟩, ?_⟩
  simp only [Otherwise.codeSize, ← Nat.add_assoc]

/-- A loop that tests before each round stands in a code, with its `line` instruction at
    `head`. -/
structure HoldsWhile (code : Code) (line : Line) (test : Expr Int64) (body : List (Stmt Int64))
    (head exit : Nat) : Prop where
  atHead : code.instrs[head]? = some (.line line)
  holdsTest : code.Holds (head + 1) (test.emit (head + 1))
  atJump : code.instrs[head + 1 + test.codeSize]? = some (.jumpIfFalse exit)
  holdsBody : code.Holds (head + 1 + test.codeSize + 1)
    (Stmt.emitAll (some ⟨.testing, head, exit⟩) line (head + 1 + test.codeSize + 1) body)
  atLast : code.instrs[head + 1 + test.codeSize + 1 +
    Stmt.codeSizeOf (some .testing) line body]? = some (.jump head)
  exit_eq : exit =
    head + 1 + test.codeSize + 1 + Stmt.codeSizeOf (some .testing) line body + 1

/-- Where the parts of a loop on a condition stand: the jump over the head at the first round, and
    the rounds. -/
theorem Holds.whileLoop (h : code.Holds start ((Stmt.whileLoop line test body).emit loop start)) :
    ∃ exit, code.instrs[start]? = some (.jump (start + 1 + 1)) ∧
      code.HoldsWhile line test body (start + 1) exit ∧
      exit = start + (Stmt.whileLoop line test body).codeSize (loop.map Loop.kind) := by
  simp only [Stmt.emit, List.cons_append, holds_append, List.length_append, List.length_cons,
    Expr.length_emit, Stmt.length_emitAll, holds_cons, Option.map_some, ← Nat.add_assoc] at h
  obtain ⟨hjump, hhead, ⟨htest, hexit, hbody⟩, hlast, -⟩ := h
  rw [Nat.add_right_comm (start + 1 + 1 + test.codeSize) _ 1] at hlast
  refine ⟨_, hjump, ⟨hhead, htest, hexit, hbody, hlast, rfl⟩, ?_⟩
  simp only [Stmt.codeSize, ← Nat.add_assoc]

/-- The rounds of a loop over items stand in a code, with its `line` instruction at `head`. -/
structure HoldsFor (code : Code) (line : Line) (var : String) (body : List (Stmt Int64))
    (head exit : Nat) : Prop where
  atHead : code.instrs[head]? = some (.line line)
  atNext : code.instrs[head + 1]? = some (.iterNext exit)
  atStore : code.instrs[head + 2]? = some (.store var)
  holdsBody : code.Holds (head + 3)
    (Stmt.emitAll (some ⟨.iterating, head, exit⟩) line (head + 3) body)
  atLast : code.instrs[head + 3 + Stmt.codeSizeOf (some .iterating) line body]? =
    some (.jump head)
  exit_eq : exit = head + 3 + Stmt.codeSizeOf (some .iterating) line body + 1

/-- Where the parts of a loop over items stand: its items, the opening of the loop, the jump over
    the head at the first round, and the rounds. -/
theorem Holds.forLoop
    (h : code.Holds start ((Stmt.forLoop line var iterable body).emit loop start)) :
    ∃ head exit, code.Holds start (iterable.emit start) ∧
      code.instrs[start + iterable.codeSize]? = some .iterStart ∧
      code.instrs[start + iterable.codeSize + 1]? = some (.jump (head + 1)) ∧
      head = start + iterable.codeSize + 2 ∧
      code.HoldsFor line var body head exit ∧
      exit = start + (Stmt.forLoop line var iterable body).codeSize (loop.map Loop.kind) := by
  simp only [Stmt.emit, holds_append, List.length_append, List.length_cons, Expr.length_emit,
    Stmt.length_emitAll, holds_cons, Option.map_some, ← Nat.add_assoc] at h
  obtain ⟨⟨hiterable, hstart, hjump, hhead, hnext, hstore, hbody⟩, hlast, -⟩ := h
  -- Both the jump back and the exit stand behind the body; only the sums are written otherwise.
  refine ⟨_, _, hiterable, hstart, hjump, rfl, ⟨hhead, hnext, hstore, hbody, ?_, rfl⟩, ?_⟩
  · rw [← hlast]
    congr 1
    omega
  · simp only [Stmt.codeSize]
    omega

end Code

/-- A program has the code that its statements stand for, unless one of them is misplaced. -/
theorem Program.compile_eq_ok_iff {program : Program} {code : Code} :
    program.compile = .ok code ↔
      Stmt.misplacedIn? .outermost program = none ∧ program.emit = code := by
  rw [compile]
  split
  next fault h => exact ⟨nofun, fun h' => nomatch h.symm.trans h'.1⟩
  next h => exact ⟨fun h' => ⟨h, by cases h'; rfl⟩, fun h' => by rw [h'.2]⟩

end Linewise
