import Linewise.Proofs.Code.Loops

/-!
# Balance

The code of a program runs as it should from its beginning on, and so do the codes of all its
functions. An expression leaves one operand more than there were, and a statement as many operands
and open loops as there were, whichever way it is left: a place is safe when the place after its
expression or statement is (`Expr.safeFor_emit`, `Stmt.safeFor_emit`).
-/

namespace Linewise

variable {code : Code} {loop : Option Loop} {before line : Line}
  {n i target count start next finish height depth : Nat}

namespace Code

variable {instr : Instr} {q : Place} {test : Expr Int64} {body : List (Stmt Int64)}
  {otherwise : Otherwise Int64}

/-- An instruction with a single exit is safe where that is. -/
theorem safeFor_single (hinstr : code.instrs[i]? = some instr) (hline : ∀ line, instr ≠ .line line)
    (hfed : instr.Fed ⟨i, height, depth⟩) (hexits : instr.exits ⟨i + 1, height, depth⟩ = [q])
    (h : code.SafeFor n q) : code.SafeFor n ⟨i, height, depth⟩ := by
  refine safeFor_of_exits hinstr (marked_of_ne hinstr hline) hfed fun q' hq' => ?_
  rw [hexits] at hq'
  rwa [List.mem_singleton.1 hq']

/-- A jump on a condition is safe where both ways are. -/
theorem safeFor_jumpIfFalse (hinstr : code.instrs[i]? = some (.jumpIfFalse target))
    (hnext : code.SafeFor n ⟨i + 1, height, depth⟩)
    (htarget : code.SafeFor n ⟨target, height, depth⟩) :
    code.SafeFor n ⟨i, height + 1, depth⟩ := by
  refine safeFor_of_exits hinstr (marked_of_ne hinstr nofun) ⟨Nat.le_add_left .., nofun⟩ ?_
  exact List.forall_mem_cons.2 ⟨hnext, List.forall_mem_singleton.2 htarget⟩

/-- A return is safe with the value that it returns. -/
theorem safeFor_leave (hinstr : code.instrs[i]? = some .leave) :
    code.SafeFor n ⟨i, height + 1, depth⟩ :=
  safeFor_of_exits hinstr (marked_of_ne hinstr (by rintro _ ⟨⟩))
    ⟨Nat.le_add_left .., by rintro _ ⟨⟩⟩ (by rintro _ ⟨⟩)

end Code

open Code

mutual

/-- An expression leaves one operand more than there were. -/
theorem Expr.safeFor_emit : ∀ (e : Expr Int64) {start height : Nat},
    code.Holds start (e.emit start) → code.SafeFor n ⟨start + e.codeSize, height + 1, depth⟩ →
    code.SafeFor n ⟨start, height, depth⟩
  | .int _, _, _, hcode, h | .float _, _, _, hcode, h | .str _, _, _, hcode, h
  | .bool _, _, _, hcode, h | .none, _, _, hcode, h | .ident _, _, _, hcode, h =>
    safeFor_single hcode.1 nofun ⟨Nat.zero_le _, nofun⟩ rfl h
  | .list items, start, height, hcode, h => by
    simp only [emit, holds_append, holds_cons, Expr.length_emitAll] at hcode
    obtain ⟨hitems, hbuild, -⟩ := hcode
    refine Expr.safeFor_emitAll items hitems ?_
    refine safeFor_single hbuild nofun ⟨Nat.le_add_left .., nofun⟩ ?_ h
    rw [Instr.exits, Nat.add_sub_cancel]
    rfl
  | .subscript object index, start, height, hcode, h => by
    simp only [emit, holds_append, holds_cons, Expr.length_emit, List.length_append,
      ← Nat.add_assoc] at hcode
    obtain ⟨⟨hobject, hindex⟩, hinstr, -⟩ := hcode
    simp only [codeSize, ← Nat.add_assoc] at h
    refine Expr.safeFor_emit object hobject (Expr.safeFor_emit index hindex ?_)
    exact safeFor_single hinstr nofun ⟨Nat.le_add_left .., nofun⟩ rfl h
  | .call callee args, start, height, hcode, h => by
    simp only [emit, holds_append, holds_cons, Expr.length_emit, Expr.length_emitAll,
      List.length_append, ← Nat.add_assoc] at hcode
    obtain ⟨⟨hcallee, hargs⟩, hinstr, -⟩ := hcode
    simp only [codeSize, ← Nat.add_assoc] at h
    refine Expr.safeFor_emit callee hcallee (Expr.safeFor_emitAll args hargs ?_)
    rw [Nat.add_right_comm height 1, Nat.add_assoc height]
    refine safeFor_single hinstr nofun ⟨Nat.le_add_left .., nofun⟩ ?_ h
    rw [Instr.exits, Nat.add_sub_cancel]
  | .unary _ operand, start, height, hcode, h => by
    simp only [emit, holds_append, holds_cons, Expr.length_emit] at hcode
    obtain ⟨hoperand, hinstr, -⟩ := hcode
    refine Expr.safeFor_emit operand hoperand ?_
    exact safeFor_single hinstr nofun ⟨Nat.le_add_left .., nofun⟩ rfl h
  | .binary _ left right, start, height, hcode, h => by
    simp only [emit, holds_append, holds_cons, Expr.length_emit, List.length_append,
      ← Nat.add_assoc] at hcode
    obtain ⟨⟨hleft, hright⟩, hinstr, -⟩ := hcode
    simp only [codeSize, ← Nat.add_assoc] at h
    refine Expr.safeFor_emit left hleft (Expr.safeFor_emit right hright ?_)
    exact safeFor_single hinstr nofun ⟨Nat.le_add_left .., nofun⟩ rfl h
  | .logic op left right, start, height, hcode, h => by
    simp only [emit, holds_append, holds_cons, Expr.length_emit] at hcode
    obtain ⟨hleft, hjump, hright⟩ := hcode
    simp only [codeSize, ← Nat.add_assoc] at h
    refine Expr.safeFor_emit left hleft ?_
    -- The left operand is the value, or else gives way to the right one.
    have hnext := Expr.safeFor_emit right hright h
    cases op <;> exact safeFor_of_exits hjump (marked_of_ne hjump nofun)
      ⟨Nat.le_add_left .., nofun⟩
      (List.forall_mem_cons.2 ⟨hnext, List.forall_mem_singleton.2 h⟩)

/-- Expressions leave one operand for each of them. -/
theorem Expr.safeFor_emitAll : ∀ (items : List (Expr Int64)) {start height : Nat},
    code.Holds start (Expr.emitAll start items) →
    code.SafeFor n ⟨start + Expr.codeSizeOf items, height + items.length, depth⟩ →
    code.SafeFor n ⟨start, height, depth⟩
  | [], _, _, _, h => h
  | item :: rest, start, height, hcode, h => by
    simp only [emitAll, holds_append, Expr.length_emit] at hcode
    refine Expr.safeFor_emit item hcode.1 (Expr.safeFor_emitAll rest hcode.2 ?_)
    simpa only [codeSizeOf, List.length_cons, ← Nat.add_assoc, Nat.add_right_comm _ 1] using h

end

/-! ## Statements -/

/-- The number of open loops outside of a loop, with a number of them in its body. -/
def LoopKind.outside : LoopKind → Nat → Nat
  | testing, depth => depth
  | iterating, depth => depth - 1

/-- A loop can be left for the place after it, and it can go on with its head for less than `n`
    instructions, from a body with a number of open loops. -/
structure Loop.SafeFor (loop : Loop) (code : Code) (n depth : Nat) : Prop where
  head : ∀ m < n, code.SafeFor m ⟨loop.head, 0, depth⟩
  exit : code.SafeFor n ⟨loop.exit, 0, loop.kind.outside depth⟩

/-- A place with an arm of a conditional is safe when the beginning of its body is, and the place
    that a failed test leads to. -/
theorem Code.HoldsArm.safeFor {test : Expr Int64} {body : List (Stmt Int64)}
    {otherwise : Otherwise Int64}
    (h : code.HoldsArm loop line test body otherwise start next finish)
    (hfinish : code.SafeFor n ⟨finish, 0, depth⟩)
    (hbody : code.SafeFor n ⟨start + test.codeSize + 1 +
        Stmt.codeSizeOf (loop.map Loop.kind) line body, 0, depth⟩ →
      code.SafeFor n ⟨start + test.codeSize + 1, 0, depth⟩)
    (hnext : code.SafeFor n ⟨next, 0, depth⟩) : code.SafeFor n ⟨start, 0, depth⟩ := by
  refine test.safeFor_emit h.holdsTest (safeFor_jumpIfFalse h.atJump (hbody ?_) hnext)
  exact safeFor_jump h.atLast hfinish

/-- A loop on a condition is safe from its test on when its body is. The body may leave for the
    exit, and it may go on with the head for fewer instructions than it is safe for itself. -/
theorem Code.HoldsWhile.safeFor {test : Expr Int64} {body : List (Stmt Int64)} {head exit : Nat}
    (h : code.HoldsWhile line test body head exit) (hdepth : code.loopsAround head = depth)
    (hexit : code.SafeFor n ⟨exit, 0, depth⟩)
    (hbody : ∀ m, Loop.SafeFor ⟨.testing, head, exit⟩ code m depth →
      code.SafeFor m ⟨head + 1 + test.codeSize + 1 +
        Stmt.codeSizeOf (some .testing) line body, 0, depth⟩ →
      code.SafeFor m ⟨head + 1 + test.codeSize + 1, 0, depth⟩) :
    code.SafeFor n ⟨head + 1, 0, depth⟩ := by
  -- One round leads to the exit, or by the closing jump or a `continue` back to the head.
  have hround : ∀ m ≤ n, (∀ k < m, code.SafeFor k ⟨head, 0, depth⟩) →
      code.SafeFor m ⟨head + 1, 0, depth⟩ := by
    intro m hm hagain
    have hleave := hexit.mono hm
    refine test.safeFor_emit h.holdsTest (safeFor_jumpIfFalse h.atJump ?_ hleave)
    exact hbody m ⟨hagain, hleave⟩ (safeFor_jump_back h.atLast hagain)
  exact hround n (Nat.le_refl n) fun k hk =>
    safeFor_head h.atHead hdepth hround k (Nat.le_of_lt hk)

/-- A loop over items is safe from where it takes the next one on when its body is. It is open up to
    the exit. -/
theorem Code.HoldsFor.safeFor {var : String} {body : List (Stmt Int64)} {head exit : Nat}
    (h : code.HoldsFor line var body head exit) (hdepth : code.loopsAround head = depth + 1)
    (hexit : code.SafeFor n ⟨exit, 0, depth⟩)
    (hbody : ∀ m, Loop.SafeFor ⟨.iterating, head, exit⟩ code m (depth + 1) →
      code.SafeFor m ⟨head + 3 + Stmt.codeSizeOf (some .iterating) line body, 0, depth + 1⟩ →
      code.SafeFor m ⟨head + 3, 0, depth + 1⟩) :
    code.SafeFor n ⟨head + 1, 0, depth + 1⟩ := by
  have hround : ∀ m ≤ n, (∀ k < m, code.SafeFor k ⟨head, 0, depth + 1⟩) →
      code.SafeFor m ⟨head + 1, 0, depth + 1⟩ := by
    intro m hm hagain
    have hleave := hexit.mono hm
    refine safeFor_of_exits h.atNext (marked_of_ne h.atNext (by rintro _ ⟨⟩))
      ⟨Nat.zero_le _, fun _ _ => Nat.succ_pos depth⟩
      (List.forall_mem_cons.2 ⟨?_, List.forall_mem_singleton.2 hleave⟩)
    refine safeFor_single h.atStore (by rintro _ ⟨⟩) ⟨Nat.le_refl _, by rintro _ ⟨⟩⟩ rfl ?_
    exact hbody m ⟨hagain, hleave⟩ (safeFor_jump_back h.atLast hagain)
  exact hround n (Nat.le_refl n) fun k hk =>
    safeFor_head h.atHead hdepth hround k (Nat.le_of_lt hk)

mutual

/-- A statement leaves no operands and as many open loops as there were, whichever way it is
    left. -/
theorem Stmt.safeFor_emit : ∀ (stmt : Stmt Int64) {loop : Option Loop} {start n depth : Nat},
    code.Holds start (stmt.emit loop start) →
    code.Surrounds depth start (stmt.emit loop start) →
    (∀ l, loop = some l → l.SafeFor code n depth) →
    code.SafeFor n ⟨start + stmt.codeSize (loop.map Loop.kind), 0, depth⟩ →
    code.SafeFor n ⟨start, 0, depth⟩
  | .expr _ value, _, _, _, _, hcode, _, _, h | .assign _ _ value, _, _, _, _, hcode, _, _, h => by
    simp only [Stmt.emit, holds_append, holds_cons, Expr.length_emit] at hcode
    obtain ⟨hvalue, hinstr, -⟩ := hcode
    exact value.safeFor_emit hvalue (safeFor_single hinstr nofun ⟨Nat.le_refl _, nofun⟩ rfl h)
  | .assignItem _ _ index value, _, _, _, _, hcode, _, _, h => by
    simp only [Stmt.emit, holds_append, holds_cons, Expr.length_emit, List.length_append,
      ← Nat.add_assoc] at hcode
    obtain ⟨⟨hindex, hvalue⟩, hinstr, -⟩ := hcode
    simp only [Stmt.codeSize, ← Nat.add_assoc] at h
    refine index.safeFor_emit hindex (value.safeFor_emit hvalue ?_)
    exact safeFor_single hinstr nofun ⟨Nat.le_refl _, nofun⟩ rfl h
  | .branch line test body otherwise, loop, start, n, depth, hcode, hloops, hloop, h => by
    obtain ⟨next, finish, harm, hfinish, hsize⟩ := hcode.branch
    obtain ⟨hbody, hotherwise⟩ := hloops.branch
    rw [← hsize] at h
    rw [← harm.next_eq, ← hfinish] at hotherwise
    refine harm.safeFor h (Stmt.safeFor_emitAll body harm.holdsBody hbody hloop) ?_
    exact Otherwise.safeFor_emit otherwise harm.holdsOtherwise hotherwise hloop hfinish.symm h
  | .whileLoop line test body, loop, start, n, depth, hcode, hloops, _, h => by
    obtain ⟨exit, hjump, hwhile, hsize⟩ := hcode.whileLoop
    obtain ⟨hdepth, hbody⟩ := hloops.whileLoop
    rw [← hsize] at h
    rw [← hwhile.exit_eq] at hbody
    -- The first round begins at the test. The body is safe for as long as the head is, and every
    -- `break` and `continue` in it is about this loop.
    refine safeFor_jump hjump (hwhile.safeFor hdepth h fun m hloop hend => ?_)
    refine Stmt.safeFor_emitAll body hwhile.holdsBody hbody ?_ hend
    rintro l ⟨⟩
    exact hloop
  | .forLoop line var iterable body, loop, start, n, depth, hcode, hloops, _, h => by
    obtain ⟨head, exit, hiterable, hstart, hjump, hheadEq, hfor, hsize⟩ := hcode.forLoop
    obtain ⟨hdepth, hbody⟩ := hloops.forLoop
    rw [← hsize] at h
    rw [← hheadEq] at hdepth hbody
    rw [← hfor.exit_eq] at hbody
    refine iterable.safeFor_emit hiterable ?_
    -- From here to the exit there is one loop more, which the head and the body count on.
    refine safeFor_single hstart nofun ⟨Nat.le_refl _, nofun⟩ rfl ?_
    refine safeFor_jump hjump (hfor.safeFor hdepth h fun m hloop hend => ?_)
    refine Stmt.safeFor_emitAll body hfor.holdsBody hbody ?_ hend
    rintro l ⟨⟩
    exact hloop
  | .define .., _, _, _, _, hcode, _, _, h => by
    obtain ⟨hmake, hstore, -⟩ := hcode
    refine safeFor_single hmake nofun ⟨Nat.zero_le _, nofun⟩ rfl ?_
    exact safeFor_single hstore nofun ⟨Nat.le_refl _, nofun⟩ rfl h
  | .leave _ none, _, _, _, _, hcode, _, _, _ => by
    obtain ⟨hvalue, hleave, -⟩ := hcode
    exact safeFor_single hvalue nofun ⟨Nat.zero_le _, nofun⟩ rfl (safeFor_leave hleave)
  | .leave _ (some value), _, _, _, _, hcode, _, _, _ => by
    simp only [Stmt.emit, holds_append, holds_cons, Expr.length_emit] at hcode
    obtain ⟨hvalue, hleave, -⟩ := hcode
    exact value.safeFor_emit hvalue (safeFor_leave hleave)
  | .breakLoop _, none, _, _, _, _, _, _, h | .continueLoop _, none, _, _, _, _, _, _, h
  | .pass _, _, _, _, _, _, _, _, h => h
  | .breakLoop _, some ⟨.testing, _, _⟩, _, _, _, hcode, _, hloop, _ =>
    safeFor_jump hcode.1 (hloop _ rfl).exit
  | .breakLoop _, some ⟨.iterating, _, _⟩, _, _, _, hcode, _, hloop, _ => by
    -- The loop over items is closed before it is left.
    refine safeFor_single hcode.1 nofun ⟨Nat.zero_le _, nofun⟩ rfl ?_
    exact safeFor_jump hcode.2.1 (hloop _ rfl).exit
  | .continueLoop _, some _, _, _, _, hcode, _, hloop, _ =>
    safeFor_jump_back hcode.1 (hloop _ rfl).head

/-- What a conditional goes on with when its test fails is safe when the place after the conditional
    is. -/
theorem Otherwise.safeFor_emit : ∀ (otherwise : Otherwise Int64) {loop : Option Loop}
    {finish start n depth : Nat}, code.Holds start (otherwise.emit loop finish start) →
    code.Surrounds depth start (otherwise.emit loop finish start) →
    (∀ l, loop = some l → l.SafeFor code n depth) →
    start + otherwise.codeSize (loop.map Loop.kind) = finish →
    code.SafeFor n ⟨finish, 0, depth⟩ → code.SafeFor n ⟨start, 0, depth⟩
  | .nothing, _, _, _, _, _, _, _, _, hfinish, h => by rwa [← hfinish] at h
  | .body body, _, _, _, _, _, hcode, hloops, hloop, hfinish, h => by
    subst hfinish
    exact Stmt.safeFor_emitAll body hcode hloops hloop h
  | .arm line test body otherwise, loop, finish, start, n, depth, hcode, hloops, hloop, hfinish,
      h => by
    obtain ⟨next, hline, harm, hsize⟩ := hcode.arm
    obtain ⟨hdepth, hbody, hotherwise⟩ := hloops.arm
    rw [← harm.next_eq] at hotherwise
    -- The `line` instruction of the arm is safe because no loop is open there beyond those around.
    refine safeFor_line hline hdepth (harm.safeFor h
      (Stmt.safeFor_emitAll body harm.holdsBody hbody hloop) ?_)
    exact Otherwise.safeFor_emit otherwise harm.holdsOtherwise hotherwise hloop
      (hsize.trans hfinish) h

/-- Statements leave no operands and as many open loops as there were, like each of them. -/
theorem Stmt.safeFor_emitAll : ∀ (stmts : List (Stmt Int64)) {loop : Option Loop}
    {before : Line} {start n depth : Nat},
    code.Holds start (Stmt.emitAll loop before start stmts) →
    code.Surrounds depth start (Stmt.emitAll loop before start stmts) →
    (∀ l, loop = some l → l.SafeFor code n depth) →
    code.SafeFor n ⟨start + Stmt.codeSizeOf (loop.map Loop.kind) before stmts, 0, depth⟩ →
    code.SafeFor n ⟨start, 0, depth⟩
  | [], _, _, _, _, _, _, _, _, h => h
  | stmt :: rest, loop, before, start, n, depth, hcode, hloops, hloop, h => by
    obtain ⟨hdepth, hstmtLoops, hrestLoops⟩ := hloops.cons
    simp only [Stmt.emitAll, holds_append, List.length_append, length_emitLine, Stmt.length_emit,
      ← Nat.add_assoc] at hcode
    obtain ⟨⟨hline, hstmt⟩, hrest⟩ := hcode
    simp only [Stmt.codeSizeOf, ← Nat.add_assoc] at h
    -- From the end backwards: the rest is safe because its end is, and the statement as the rest is.
    have hinner := Stmt.safeFor_emit stmt hstmt hstmtLoops hloop
      (Stmt.safeFor_emitAll rest hrest hrestLoops hloop h)
    -- In front of the statement there may be a `line` instruction.
    rw [emitLine] at hline
    rw [lineSize] at hinner
    split at hline
    next heq => rwa [if_pos heq] at hinner
    next hne =>
      rw [if_neg hne] at hinner
      exact safeFor_line hline.1 (hdepth hne) hinner

end

end Linewise
