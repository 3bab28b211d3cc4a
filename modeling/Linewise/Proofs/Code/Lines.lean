import Linewise.Proofs.Code.Ownership

/-!
# The lines of a code

A frame is always on the line of the last `line` instruction that it ran, and the emission leaves
`line` instructions out where it counts on the frame being on the right line already. That it is
can be told without running anything: an address and a line are in order (`Code.Lined`) when the
line owns the instruction there, if any line does, and wherever execution goes on from there with
the line that the instruction leads to is in order again.

A code may run in circles, so this is the limit of being in order for a number of instructions
(`Code.LinedFor`). Why it holds of a program from the beginning of each of its codes on is that
lines do not descend in the order of the text: of the statements of a body, one on the line that
the statement before it starts on comes after code of that line only (`Ascending.eq_line_or`).
-/

namespace Linewise

/-- All addresses within bounds are owned by one line. -/
def Covers (owners : List (Option Line)) (lo hi : Nat) (line : Line) : Prop :=
  ∀ i, lo ≤ i → i < hi → owners[i]? = some (some line)

/-- Some owners are listed one after the other, from the address `start` on. -/
def Lists (owners : List (Option Line)) (start : Nat) : List (Option Line) → Prop
  | [] => True
  | owner :: rest => owners[start]? = some owner ∧ Lists owners (start + 1) rest

section Lists

variable {owners listed listed' : List (Option Line)} {owner : Option Line} {start count : Nat}
  {line : Line}

@[simp]
theorem lists_nil : Lists owners start [] := trivial

@[simp]
theorem lists_cons :
    Lists owners start (owner :: listed) ↔
      owners[start]? = some owner ∧ Lists owners (start + 1) listed := Iff.rfl

@[simp]
theorem lists_append :
    Lists owners start (listed ++ listed') ↔
      Lists owners start listed ∧ Lists owners (start + listed.length) listed' := by
  induction listed generalizing start with
  | nil => simp
  | cons owner rest ih =>
    rw [List.cons_append, lists_cons, ih, lists_cons, and_assoc, List.length_cons,
      Nat.add_assoc start, Nat.add_comm 1]

/-- A table lists itself. -/
theorem lists_self : Lists owners 0 owners := by
  have h : ∀ done listed, Lists (done ++ listed) done.length listed := by
    intro done listed
    induction listed generalizing done with
    | nil => trivial
    | cons owner rest ih =>
      refine ⟨by simp, ?_⟩
      have hrest := ih (done ++ [owner])
      rwa [List.append_assoc, List.length_append] at hrest
  exact h [] owners

/-- Listing one line several times is covering as many addresses with it. -/
@[simp]
theorem lists_replicate :
    Lists owners start (List.replicate count (some line)) ↔
      Covers owners start (start + count) line := by
  induction count generalizing start with
  | zero => exact iff_of_true trivial fun i hlo hhi => absurd hlo (Nat.not_le.2 hhi)
  | succ count ih =>
    rw [List.replicate_succ, lists_cons, ih, Nat.add_right_comm, Nat.add_assoc]
    refine ⟨fun ⟨hfirst, hrest⟩ i hlo hhi => ?_, fun h => ⟨h start ?_ ?_, fun i hlo => h i ?_⟩⟩
    · rcases Nat.eq_or_lt_of_le hlo with rfl | hlt
      · exact hfirst
      · exact hrest i hlt hhi
    all_goals omega

end Lists

namespace Code

/-- From an address on, with the frame on a line, a code runs for `n` instructions under the lines
    that own them. -/
def LinedFor (code : Code) (owners : List (Option Line)) : (n : Nat) → Nat → Line → Prop
  | 0, _, _ => True
  | n + 1, i, line =>
    (∀ owner, owners[i]? = some (some owner) → owner = line) ∧
      ∀ instr, code.instrs[i]? = some instr →
        ∀ j ∈ instr.successors i, code.LinedFor owners n j (instr.lineAfter line)

/-- From an address on, with the frame on a line, a code runs under the lines that own it. -/
def Lined (code : Code) (owners : List (Option Line)) (i : Nat) (line : Line) : Prop :=
  ∀ n, code.LinedFor owners n i line

variable {code : Code} {owners : List (Option Line)} {m n i target lo hi : Nat} {instr : Instr}
  {line line' : Line}

/-- What is in order for some instructions is so for fewer. -/
theorem LinedFor.mono (h : code.LinedFor owners n i line) (hle : m ≤ n) :
    code.LinedFor owners m i line := by
  induction n generalizing m i line with
  | zero => rwa [Nat.le_zero.1 hle]
  | succ n ih =>
    cases m with
    | zero => trivial
    | succ m =>
      obtain ⟨howner, hnext⟩ := h
      exact ⟨howner, fun instr hinstr j hj =>
        ih (hnext instr hinstr j hj) (Nat.le_of_succ_le_succ hle)⟩

/-! ## How a code comes to run under its lines -/

/-- An instruction is in order when its owner, if it has one, is the line of the frame, and wherever
    execution goes on is in order. -/
theorem linedFor_succ (hinstr : code.instrs[i]? = some instr)
    (howner : ∀ owner, owners[i]? = some (some owner) → owner = line)
    (h : ∀ j ∈ instr.successors i, code.LinedFor owners n j (instr.lineAfter line)) :
    code.LinedFor owners (n + 1) i line :=
  ⟨howner, fun _ hinstr' => by cases hinstr.symm.trans hinstr'; exact h⟩

/-- An instruction in the bounds of its line. -/
theorem linedFor_owned (hcovers : Covers owners lo hi line)
    (hinstr : code.instrs[i]? = some instr) (hline : instr.lineAfter line = line) (hlo : lo ≤ i)
    (hhi : i < hi) (h : ∀ j ∈ instr.successors i, code.LinedFor owners n j line) :
    code.LinedFor owners n i line := by
  refine (linedFor_succ hinstr ?_ (hline.symm ▸ h)).mono (Nat.le_succ n)
  intro owner howner
  cases (hcovers i hlo hhi).symm.trans howner
  rfl

/-- An instruction without an owner. -/
theorem linedFor_unowned (hinstr : code.instrs[i]? = some instr) (howner : owners[i]? = some none)
    (hline : instr.lineAfter line' = line)
    (h : ∀ j ∈ instr.successors i, code.LinedFor owners n j line) :
    code.LinedFor owners n i line' := by
  refine (linedFor_succ hinstr ?_ (hline.symm ▸ h)).mono (Nat.le_succ n)
  exact fun owner howner' => nomatch howner.symm.trans howner'

/-- A `line` instruction is in order with any line before it. -/
theorem linedFor_line (hinstr : code.instrs[i]? = some (.line line))
    (howner : owners[i]? = some none) (h : code.LinedFor owners n (i + 1) line) :
    code.LinedFor owners n i line' :=
  linedFor_unowned hinstr howner rfl (List.forall_mem_singleton.2 h)

/-- A jump back is in order for one instruction more than its target. -/
theorem linedFor_jump_back (hinstr : code.instrs[i]? = some (.jump target))
    (howner : owners[i]? = some none) (h : ∀ m < n, code.LinedFor owners m target line) :
    code.LinedFor owners n i line := by
  cases n with
  | zero => trivial
  | succ n =>
    refine linedFor_succ hinstr ?_ (List.forall_mem_singleton.2 (h n (Nat.lt_succ_self n)))
    exact fun owner howner' => nomatch howner.symm.trans howner'

theorem linedFor_jump (hinstr : code.instrs[i]? = some (.jump target))
    (howner : owners[i]? = some none) (h : code.LinedFor owners n target line) :
    code.LinedFor owners n i line :=
  linedFor_jump_back hinstr howner fun _ hm => h.mono (Nat.le_of_lt hm)

/-- The head of a loop is in order when one round is, for as many instructions as the head has been
    shown to be in order for before. -/
theorem linedFor_head (hinstr : code.instrs[i]? = some (.line line))
    (howner : owners[i]? = some none)
    (hround : ∀ m ≤ n, (∀ k < m, ∀ line', code.LinedFor owners k i line') →
      code.LinedFor owners m (i + 1) line) :
    ∀ m ≤ n, ∀ line', code.LinedFor owners m i line' := by
  intro m
  induction m using Nat.strongRecOn with
  | ind m ih =>
    intro hm line'
    refine linedFor_line hinstr howner (hround m hm fun k hk => ih k hk ?_)
    exact Nat.le_trans (Nat.le_of_lt hk) hm

/-! ## What being in order is good for -/

/-- The line that owns an instruction is the one that the frame is on. -/
theorem Lined.owner {owner : Line} (h : code.Lined owners i line)
    (howner : owners[i]? = some (some owner)) : owner = line :=
  (h 1).1 owner howner

/-- A line is carried from an instruction to each one that may follow it. -/
theorem Lined.next {j : Nat} (h : code.Lined owners i line) (hinstr : code.instrs[i]? = some instr)
    (hj : j ∈ instr.successors i) : code.Lined owners j (instr.lineAfter line) :=
  fun n => (h (n + 1)).2 instr hinstr j hj

end Code

open Code

variable {code : Code} {owners : List (Option Line)} {loop : Option Loop} {before line : Line}
  {n start next finish lo hi : Nat}

mutual

/-- An expression is in order under the line that owns it when the place after it is. -/
theorem Expr.linedFor_emit (hcovers : Covers owners lo hi line) : ∀ (e : Expr Int64) {start : Nat},
    code.Holds start (e.emit start) → lo ≤ start → start + e.codeSize ≤ hi →
    code.LinedFor owners n (start + e.codeSize) line → code.LinedFor owners n start line
  | .int _, _, hcode, hlo, hhi, h | .float _, _, hcode, hlo, hhi, h
  | .str _, _, hcode, hlo, hhi, h | .bool _, _, hcode, hlo, hhi, h | .none, _, hcode, hlo, hhi, h
  | .ident _, _, hcode, hlo, hhi, h =>
    linedFor_owned hcovers hcode.1 rfl hlo hhi (List.forall_mem_singleton.2 h)
  | .list items, start, hcode, hlo, hhi, h => by
    simp only [emit, holds_append, holds_cons, Expr.length_emitAll] at hcode
    obtain ⟨hitems, hbuild, -⟩ := hcode
    simp only [codeSize, ← Nat.add_assoc] at hhi h
    refine Expr.linedFor_emitAll hcovers items hitems hlo (by omega) ?_
    exact linedFor_owned hcovers hbuild rfl (by omega) (by omega) (List.forall_mem_singleton.2 h)
  | .subscript object index, start, hcode, hlo, hhi, h => by
    simp only [emit, holds_append, holds_cons, Expr.length_emit, List.length_append,
      ← Nat.add_assoc] at hcode
    obtain ⟨⟨hobject, hindex⟩, hinstr, -⟩ := hcode
    simp only [codeSize, ← Nat.add_assoc] at hhi h
    refine Expr.linedFor_emit hcovers object hobject hlo (by omega)
      (Expr.linedFor_emit hcovers index hindex (by omega) (by omega) ?_)
    exact linedFor_owned hcovers hinstr rfl (by omega) (by omega) (List.forall_mem_singleton.2 h)
  | .call callee args, start, hcode, hlo, hhi, h => by
    simp only [emit, holds_append, holds_cons, Expr.length_emit, Expr.length_emitAll,
      List.length_append, ← Nat.add_assoc] at hcode
    obtain ⟨⟨hcallee, hargs⟩, hinstr, -⟩ := hcode
    simp only [codeSize, ← Nat.add_assoc] at hhi h
    refine Expr.linedFor_emit hcovers callee hcallee hlo (by omega)
      (Expr.linedFor_emitAll hcovers args hargs (by omega) (by omega) ?_)
    exact linedFor_owned hcovers hinstr rfl (by omega) (by omega) (List.forall_mem_singleton.2 h)
  | .unary _ operand, start, hcode, hlo, hhi, h => by
    simp only [emit, holds_append, holds_cons, Expr.length_emit] at hcode
    obtain ⟨hoperand, hinstr, -⟩ := hcode
    simp only [codeSize, ← Nat.add_assoc] at hhi h
    refine Expr.linedFor_emit hcovers operand hoperand hlo (by omega) ?_
    exact linedFor_owned hcovers hinstr rfl (by omega) (by omega) (List.forall_mem_singleton.2 h)
  | .binary _ left right, start, hcode, hlo, hhi, h => by
    simp only [emit, holds_append, holds_cons, Expr.length_emit, List.length_append,
      ← Nat.add_assoc] at hcode
    obtain ⟨⟨hleft, hright⟩, hinstr, -⟩ := hcode
    simp only [codeSize, ← Nat.add_assoc] at hhi h
    refine Expr.linedFor_emit hcovers left hleft hlo (by omega)
      (Expr.linedFor_emit hcovers right hright (by omega) (by omega) ?_)
    exact linedFor_owned hcovers hinstr rfl (by omega) (by omega) (List.forall_mem_singleton.2 h)
  | .logic op left right, start, hcode, hlo, hhi, h => by
    simp only [emit, holds_append, holds_cons, Expr.length_emit] at hcode
    obtain ⟨hleft, hjump, hright⟩ := hcode
    simp only [codeSize, ← Nat.add_assoc] at hhi h
    refine Expr.linedFor_emit hcovers left hleft hlo (by omega) ?_
    have hnext := Expr.linedFor_emit hcovers right hright (by omega) hhi h
    -- The left operand gives way to the right one, or else it is the value.
    cases op <;> exact linedFor_owned hcovers hjump rfl (by omega) (by omega)
      (List.forall_mem_cons.2 ⟨hnext, List.forall_mem_singleton.2 h⟩)

/-- Expressions are in order under the line that owns them when the place after them is. -/
theorem Expr.linedFor_emitAll (hcovers : Covers owners lo hi line) :
    ∀ (items : List (Expr Int64)) {start : Nat}, code.Holds start (Expr.emitAll start items) →
    lo ≤ start →
    start + Expr.codeSizeOf items ≤ hi →
    code.LinedFor owners n (start + Expr.codeSizeOf items) line → code.LinedFor owners n start line
  | [], _, _, _, _, h => h
  | item :: rest, start, hcode, hlo, hhi, h => by
    simp only [emitAll, holds_append, Expr.length_emit] at hcode
    simp only [codeSizeOf, ← Nat.add_assoc] at hhi h
    exact Expr.linedFor_emit hcovers item hcode.1 hlo (by omega)
      (Expr.linedFor_emitAll hcovers rest hcode.2 (by omega) hhi h)

end

/-! ## Statements -/

/-- A loop can be left for the place after it, and it can go on with its head for less than `n`
    instructions, from any of some lines. -/
structure Loop.LinedFor (loop : Loop) (code : Code) (owners : List (Option Line)) (n : Nat)
    (lines : List Line) : Prop where
  head : ∀ m < n, ∀ line ∈ lines, code.LinedFor owners m loop.head line
  exit : ∀ line ∈ lines, code.LinedFor owners n loop.exit line

theorem Loop.LinedFor.of_subset {loop : Loop} {lines lines' : List Line}
    (h : loop.LinedFor code owners n lines) (hsub : lines' ⊆ lines) :
    loop.LinedFor code owners n lines' :=
  ⟨fun m hm line hline => h.head m hm line (hsub hline), fun line hline => h.exit line (hsub hline)⟩

/-- An arm of a conditional is in order when the beginning of its body is, and the place that a
    failed test leads to. -/
theorem Code.HoldsArm.linedFor {test : Expr Int64} {body : List (Stmt Int64)}
    {otherwise : Otherwise Int64} {lines : List Line}
    (h : code.HoldsArm loop line test body otherwise start next finish)
    (hcovers : Covers owners start (start + test.codeSize + 1) line)
    (hlast : owners[start + test.codeSize + 1 +
      Stmt.codeSizeOf (loop.map Loop.kind) line body]? = some none)
    (hfinish : ∀ l ∈ lines, code.LinedFor owners n finish l)
    (hbody : (∀ l ∈ lines, code.LinedFor owners n (start + test.codeSize + 1 +
        Stmt.codeSizeOf (loop.map Loop.kind) line body) l) →
      code.LinedFor owners n (start + test.codeSize + 1) line)
    (hnext : code.LinedFor owners n next line) : code.LinedFor owners n start line := by
  refine test.linedFor_emit hcovers h.holdsTest (Nat.le_refl _) (Nat.le_succ _) ?_
  refine linedFor_owned hcovers h.atJump rfl (Nat.le_add_right ..) (Nat.lt_succ_self _)
    (List.forall_mem_cons.2 ⟨hbody fun l hl => ?_, List.forall_mem_singleton.2 hnext⟩)
  exact linedFor_jump h.atLast hlast (hfinish l hl)

/-- A loop on a condition is in order from its test on when its body is. The body may leave for the
    exit, and it may go on with the head for fewer instructions than it is in order for itself. -/
theorem Code.HoldsWhile.linedFor {test : Expr Int64} {body : List (Stmt Int64)} {head exit : Nat}
    {lines : List Line} (h : code.HoldsWhile line test body head exit)
    (hhead : owners[head]? = some none)
    (hcovers : Covers owners (head + 1) (head + 1 + test.codeSize + 1) line)
    (hlast : owners[head + 1 + test.codeSize + 1 +
      Stmt.codeSizeOf (some .testing) line body]? = some none)
    (hexit : ∀ l ∈ line :: lines, code.LinedFor owners n exit l)
    (hbody : ∀ m, Loop.LinedFor ⟨.testing, head, exit⟩ code owners m lines →
      (∀ l, code.LinedFor owners m (head + 1 + test.codeSize + 1 +
        Stmt.codeSizeOf (some .testing) line body) l) →
      code.LinedFor owners m (head + 1 + test.codeSize + 1) line) :
    code.LinedFor owners n (head + 1) line := by
  -- One round leads to the exit, or by the closing jump or a `continue` back to the head.
  have hround : ∀ m ≤ n, (∀ k < m, ∀ l, code.LinedFor owners k head l) →
      code.LinedFor owners m (head + 1) line := by
    intro m hm hagain
    have hleave : ∀ l ∈ line :: lines, code.LinedFor owners m exit l :=
      fun l hl => (hexit l hl).mono hm
    refine test.linedFor_emit hcovers h.holdsTest (Nat.le_refl _) (Nat.le_succ _) ?_
    refine linedFor_owned hcovers h.atJump rfl (Nat.le_add_right ..) (Nat.lt_succ_self _)
      (List.forall_mem_cons.2 ⟨?_, List.forall_mem_singleton.2 (hleave line List.mem_cons_self)⟩)
    exact hbody m ⟨fun k hk l _ => hagain k hk l, fun l hl => hleave l (List.mem_cons_of_mem _ hl)⟩
      fun l => linedFor_jump_back h.atLast hlast fun k hk => hagain k hk l
  exact hround n (Nat.le_refl n) fun k hk => linedFor_head h.atHead hhead hround k (Nat.le_of_lt hk)

/-- A loop over items is in order from where it takes the next one on when its body is. -/
theorem Code.HoldsFor.linedFor {var : String} {body : List (Stmt Int64)} {head exit : Nat}
    {lines : List Line} (h : code.HoldsFor line var body head exit)
    (hhead : owners[head]? = some none) (hcovers : Covers owners (head + 1) (head + 3) line)
    (hlast : owners[head + 3 + Stmt.codeSizeOf (some .iterating) line body]? = some none)
    (hexit : ∀ l ∈ line :: lines, code.LinedFor owners n exit l)
    (hbody : ∀ m, Loop.LinedFor ⟨.iterating, head, exit⟩ code owners m lines →
      (∀ l, code.LinedFor owners m (head + 3 + Stmt.codeSizeOf (some .iterating) line body) l) →
      code.LinedFor owners m (head + 3) line) :
    code.LinedFor owners n (head + 1) line := by
  have hround : ∀ m ≤ n, (∀ k < m, ∀ l, code.LinedFor owners k head l) →
      code.LinedFor owners m (head + 1) line := by
    intro m hm hagain
    have hleave : ∀ l ∈ line :: lines, code.LinedFor owners m exit l :=
      fun l hl => (hexit l hl).mono hm
    refine linedFor_owned hcovers h.atNext rfl (Nat.le_refl _) (by omega)
      (List.forall_mem_cons.2 ⟨?_, List.forall_mem_singleton.2 (hleave line List.mem_cons_self)⟩)
    refine linedFor_owned hcovers h.atStore rfl (by omega) (by omega)
      (List.forall_mem_singleton.2 ?_)
    exact hbody m ⟨fun k hk l _ => hagain k hk l, fun l hl => hleave l (List.mem_cons_of_mem _ hl)⟩
      fun l => linedFor_jump_back h.atLast hlast fun k hk => hagain k hk l
  exact hround n (Nat.le_refl n) fun k hk => linedFor_head h.atHead hhead hround k (Nat.le_of_lt hk)

mutual

/-- A statement is in order from its line on when all places that it can be left for are, from any
    line in it. -/
theorem Stmt.linedFor_emit : ∀ (stmt : Stmt Int64) {loop : Option Loop} {start n : Nat},
    Ascending [stmt] → code.Holds start (stmt.emit loop start) →
    Lists owners start (stmt.owners (loop.map Loop.kind)) →
    (∀ l, loop = some l → l.LinedFor code owners n stmt.lines) →
    (∀ line ∈ stmt.lines,
      code.LinedFor owners n (start + stmt.codeSize (loop.map Loop.kind)) line) →
    code.LinedFor owners n start stmt.line
  | .expr line value, _, start, _, _, hcode, hlisted, _, h
  | .assign line _ value, _, start, _, _, hcode, hlisted, _, h => by
    simp only [Stmt.emit, holds_append, holds_cons, Expr.length_emit] at hcode
    simp only [Stmt.owners, lists_replicate] at hlisted
    obtain ⟨hvalue, hinstr, -⟩ := hcode
    -- All instructions of the statement are owned by its line.
    refine value.linedFor_emit hlisted hvalue (Nat.le_refl _) (by omega) ?_
    refine linedFor_owned hlisted hinstr rfl (by omega) (by omega)
      (List.forall_mem_singleton.2 (h line ?_))
    exact List.mem_singleton_self _
  | .assignItem line _ index value, _, start, _, _, hcode, hlisted, _, h => by
    simp only [Stmt.emit, holds_append, holds_cons, Expr.length_emit, List.length_append,
      ← Nat.add_assoc] at hcode
    simp only [Stmt.owners, lists_replicate] at hlisted
    obtain ⟨⟨hindex, hvalue⟩, hinstr, -⟩ := hcode
    simp only [Stmt.codeSize, ← Nat.add_assoc] at h
    refine index.linedFor_emit hlisted hindex (Nat.le_refl _) (by omega)
      (value.linedFor_emit hlisted hvalue (by omega) (by omega) ?_)
    refine linedFor_owned hlisted hinstr rfl (by omega) (by omega)
      (List.forall_mem_singleton.2 (h line ?_))
    exact List.mem_singleton_self _
  | .branch line test body otherwise, loop, start, n, hascends, hcode, hlisted, hloop,
      h => by
    obtain ⟨next, finish, harm, hfinish, hsize⟩ := hcode.branch
    -- The line owns the test and its jump; the jump behind the body is nobody's.
    simp only [Stmt.owners, lists_append, lists_cons, lists_replicate, List.length_append,
      List.length_replicate, Stmt.length_ownersOf, ← Nat.add_assoc] at hlisted
    obtain ⟨⟨htest, hbody⟩, hlast, hotherwise⟩ := hlisted
    rw [← harm.next_eq] at hotherwise
    simp only [Stmt.lines, Stmt.marks, List.forall_mem_append, List.forall_mem_singleton,
      ← hsize] at h
    obtain ⟨hline, hinner, houter⟩ := h
    -- The body ends on its own line or is empty, and then on that of the test.
    have hend : ∀ l ∈ line :: Stmt.linesOf body, code.LinedFor owners n finish l :=
      List.forall_mem_cons.2 ⟨hline, hinner⟩
    refine harm.linedFor htest hlast hend ?_ ?_
    · refine Stmt.linedFor_emitAll body hascends.branch_body harm.holdsBody hbody
        (fun l hl => (hloop l hl).of_subset ?_) fun _ _ _ => rfl
      exact List.subset_cons_of_subset _ (List.subset_append_left _ _)
    · refine Otherwise.linedFor_emit otherwise hascends.branch_otherwise harm.holdsOtherwise
        hotherwise (fun l hl => (hloop l hl).of_subset ?_) hfinish.symm
        (List.forall_mem_cons.2 ⟨hline, houter⟩)
      exact List.subset_cons_of_subset _ (List.subset_append_right _ _)
  | .whileLoop line test body, loop, start, n, hascends, hcode, hlisted, _, h => by
    obtain ⟨exit, hjump, hwhile, hsize⟩ := hcode.whileLoop
    simp only [Stmt.owners, List.cons_append, lists_append, lists_cons, lists_replicate,
      List.length_append, List.length_replicate, Stmt.length_ownersOf, ← Nat.add_assoc] at hlisted
    obtain ⟨hstart, hhead, ⟨htest, hbody⟩, hlast, -⟩ := hlisted
    rw [← hsize] at h
    -- The first round begins on the line of the loop, and so does every other one behind the mark
    -- at the head.
    refine linedFor_jump hjump hstart (hwhile.linedFor hhead htest hlast h fun m hloop hend => ?_)
    refine Stmt.linedFor_emitAll body hascends.while_body hwhile.holdsBody hbody ?_
      (fun _ _ _ => rfl) fun l _ => hend l
    rintro l ⟨⟩
    exact hloop
  | .forLoop line var iterable body, loop, start, n, hascends, hcode, hlisted, _, h => by
    obtain ⟨head, exit, hiterable, hopen, hjump, hheadEq, hfor, hsize⟩ := hcode.forLoop
    simp only [Stmt.owners, lists_append, lists_cons, lists_replicate,
      List.length_append, List.length_cons, List.length_replicate, Stmt.length_ownersOf,
      ← Nat.add_assoc] at hlisted
    obtain ⟨⟨hopening, hstart, hhead, hnext, hstore, hbody⟩, hlast, -⟩ := hlisted
    subst hheadEq
    rw [← hsize] at h
    -- The line owns the two instructions that take the next item.
    have htake : Lists owners (start + iterable.codeSize + 2 + 1) (List.replicate 2 (some line)) :=
      ⟨hnext, hstore, trivial⟩
    rw [show start + iterable.codeSize + 1 + Stmt.codeSizeOf (some .iterating) line body + 1 + 1 +
      1 + 1 = start + iterable.codeSize + 2 + 3 + Stmt.codeSizeOf (some .iterating) line body by
        omega] at hlast
    refine iterable.linedFor_emit hopening hiterable (Nat.le_refl _) (Nat.le_succ _) ?_
    refine linedFor_owned hopening hopen rfl (Nat.le_add_right ..) (Nat.lt_succ_self _)
      (List.forall_mem_singleton.2 ?_)
    refine linedFor_jump hjump hstart (hfor.linedFor hhead (lists_replicate.1 htake) hlast h
      fun m hloop hend => ?_)
    refine Stmt.linedFor_emitAll body hascends.for_body hfor.holdsBody hbody ?_ (fun _ _ _ => rfl)
      fun l _ => hend l
    rintro l ⟨⟩
    exact hloop
  | .define line .., _, start, _, _, hcode, hlisted, _, h => by
    obtain ⟨hmake, hstore, -⟩ := hcode
    have hcovers : Covers owners start (start + 2) line := lists_replicate.1 hlisted
    refine linedFor_owned hcovers hmake rfl (Nat.le_refl _) (by omega)
      (List.forall_mem_singleton.2 ?_)
    exact linedFor_owned hcovers hstore rfl (by omega) (by omega)
      (List.forall_mem_singleton.2 (h line List.mem_cons_self))
  | .leave line none, _, start, _, _, hcode, hlisted, _, h => by
    obtain ⟨hvalue, hleave, -⟩ := hcode
    have hcovers : Covers owners start (start + 2) line := lists_replicate.1 hlisted
    refine linedFor_owned hcovers hvalue rfl (Nat.le_refl _) (by omega)
      (List.forall_mem_singleton.2 ?_)
    exact linedFor_owned hcovers hleave rfl (by omega) (by omega)
      (List.forall_mem_singleton.2 (h line List.mem_cons_self))
  | .leave line (some value), _, start, _, _, hcode, hlisted, _, h => by
    simp only [Stmt.emit, holds_append, holds_cons, Expr.length_emit] at hcode
    have hcovers : Covers owners start (start + (value.codeSize + 1)) line :=
      lists_replicate.1 hlisted
    obtain ⟨hvalue, hleave, -⟩ := hcode
    refine value.linedFor_emit hcovers hvalue (Nat.le_refl _) (by omega) ?_
    exact linedFor_owned hcovers hleave rfl (by omega) (by omega)
      (List.forall_mem_singleton.2 (h line List.mem_cons_self))
  | .breakLoop line, none, _, _, _, _, _, _, h | .continueLoop line, none, _, _, _, _, _, _, h
  | .pass line, _, _, _, _, _, _, _, h => h line List.mem_cons_self
  | .breakLoop line, some ⟨.testing, _, _⟩, _, _, _, hcode, hlisted, hloop, _ =>
    linedFor_jump hcode.1 hlisted.1 ((hloop _ rfl).exit line List.mem_cons_self)
  | .breakLoop line, some ⟨.iterating, _, _⟩, start, _, _, hcode, hlisted, hloop, _ => by
    -- What closes the loop belongs to the `break`, and the jump behind it is nobody's.
    have hdrop : Lists owners start (List.replicate 1 (some line)) := ⟨hlisted.1, trivial⟩
    have hcovers : Covers owners start (start + 1) line := lists_replicate.1 hdrop
    refine linedFor_owned hcovers hcode.1 rfl (Nat.le_refl _) (Nat.lt_succ_self _)
      (List.forall_mem_singleton.2 ?_)
    exact linedFor_jump hcode.2.1 hlisted.2.1 ((hloop _ rfl).exit line List.mem_cons_self)
  | .continueLoop line, some _, _, _, _, hcode, hlisted, hloop, _ =>
    linedFor_jump_back hcode.1 hlisted.1 fun m hm =>
      (hloop _ rfl).head m hm line List.mem_cons_self

/-- What a conditional goes on with is in order from the line of the test that failed, when the end
    of the conditional is from that line and from any line in it. -/
theorem Otherwise.linedFor_emit : ∀ (otherwise : Otherwise Int64) {loop : Option Loop}
    {finish start n : Nat} {line : Line}, Ascending otherwise.toStmts →
    code.Holds start (otherwise.emit loop finish start) →
    Lists owners start (otherwise.owners (loop.map Loop.kind)) →
    (∀ l, loop = some l → l.LinedFor code owners n otherwise.lines) →
    start + otherwise.codeSize (loop.map Loop.kind) = finish →
    (∀ l ∈ line :: otherwise.lines, code.LinedFor owners n finish l) →
    code.LinedFor owners n start line
  | .nothing, _, _, _, _, line, _, _, _, _, hfinish, h => by
    rw [← hfinish] at h
    exact h line List.mem_cons_self
  | .body body, _, _, _, _, _, hascends, hcode, hlisted, hloop, hfinish, h => by
    subst hfinish
    refine Stmt.linedFor_emitAll body hascends hcode hlisted hloop (fun first hfirst hzero => ?_) h
    exact absurd hzero (hascends.ne_zero _ (Stmt.line_mem_linesOf hfirst))
  | .arm line test body otherwise, loop, finish, start, n, line', hascends, hcode, hlisted,
      hloop, hfinish, h => by
    obtain ⟨next, hline, harm, hsize⟩ := hcode.arm
    simp only [Otherwise.owners, List.cons_append, lists_append, lists_cons, lists_replicate,
      List.length_append, List.length_replicate, Stmt.length_ownersOf, ← Nat.add_assoc] at hlisted
    -- An arm owns its test and the jump of it; its `line` instruction and its last jump are
    -- nobody's.
    obtain ⟨howner, ⟨htest, hbody⟩, hlast, hotherwise⟩ := hlisted
    rw [← harm.next_eq] at hotherwise
    obtain ⟨-, hlines⟩ := List.forall_mem_cons.1 h
    simp only [Otherwise.lines, Otherwise.marks, List.forall_mem_append,
      List.forall_mem_singleton] at hlines
    obtain ⟨hend, hinner, houter⟩ := hlines
    have hends : ∀ l ∈ line :: Stmt.linesOf body, code.LinedFor owners n finish l :=
      List.forall_mem_cons.2 ⟨hend, hinner⟩
    -- The mark of the arm brings the frame to its line, from which the body or the next arm goes
    -- on.
    refine linedFor_line hline howner (harm.linedFor htest hlast hends ?_ ?_)
    · refine Stmt.linedFor_emitAll body hascends.branch_body harm.holdsBody hbody
        (fun l hl => (hloop l hl).of_subset ?_) fun _ _ _ => rfl
      exact List.subset_cons_of_subset _ (List.subset_append_left _ _)
    · refine Otherwise.linedFor_emit otherwise hascends.branch_otherwise harm.holdsOtherwise
        hotherwise (fun l hl => (hloop l hl).of_subset ?_) (hsize.trans hfinish)
        (List.forall_mem_cons.2 ⟨hend, houter⟩)
      exact List.subset_cons_of_subset _ (List.subset_append_right _ _)

/-- Statements are in order when their end is from any of their lines. A first statement on the line
    `before` is taken to find the frame there, as it has no mark of its own. -/
theorem Stmt.linedFor_emitAll : ∀ (stmts : List (Stmt Int64)) {loop : Option Loop}
    {before line : Line} {start n : Nat}, Ascending stmts →
    code.Holds start (Stmt.emitAll loop before start stmts) →
    Lists owners start (Stmt.ownersOf (loop.map Loop.kind) before stmts) →
    (∀ l, loop = some l → l.LinedFor code owners n (Stmt.linesOf stmts)) →
    (∀ first ∈ stmts.head?, first.line = before → line = before) →
    (∀ l ∈ line :: Stmt.linesOf stmts,
      code.LinedFor owners n (start + Stmt.codeSizeOf (loop.map Loop.kind) before stmts) l) →
    code.LinedFor owners n start line
  | [], _, _, line, _, _, _, _, _, _, _, h => h line List.mem_cons_self
  | stmt :: rest, loop, before, line, start, n, hascends, hcode, hlisted, hloop, hcurrent,
      h => by
    simp only [Stmt.emitAll, holds_append, List.length_append, length_emitLine, Stmt.length_emit,
      ← Nat.add_assoc] at hcode
    simp only [Stmt.ownersOf, lists_append, List.length_append, List.length_replicate,
      Stmt.length_owners, ← Nat.add_assoc] at hlisted
    obtain ⟨⟨hline, hstmt⟩, hrest⟩ := hcode
    obtain ⟨⟨howner, hstmtOwners⟩, hrestOwners⟩ := hlisted
    simp only [Stmt.codeSizeOf, ← Nat.add_assoc] at h
    obtain ⟨-, hparts⟩ := List.forall_mem_cons.1 h
    obtain ⟨hfirst, hothers⟩ := List.forall_mem_append.1 hparts
    -- Lines do not descend: what stands between this statement and a next one on the same line is
    -- all on that line, so the frame is there when the next one begins.
    have hinner := Stmt.linedFor_emit stmt hascends.head hstmt hstmtOwners
      (fun l hl => (hloop l hl).of_subset (List.subset_append_left _ _)) fun l hl =>
        Stmt.linedFor_emitAll rest hascends.tail hrest hrestOwners
          (fun l hl => (hloop l hl).of_subset (List.subset_append_right _ _))
          (fun next hnext heq => (hascends.eq_line_or hl).resolve_right fun hne =>
            hne _ (Stmt.line_mem_linesOf hnext) heq)
          (List.forall_mem_cons.2 ⟨hfirst l hl, hothers⟩)
    -- The statement has no `line` instruction if the frame is on its line already.
    rw [emitLine] at hline
    rw [lineSize] at hinner howner
    split at hline
    next heq =>
      rw [if_pos heq] at hinner
      rwa [hcurrent stmt rfl heq, ← heq]
    next hne =>
      rw [if_neg hne] at hinner howner
      exact linedFor_line hline.1 howner.1 hinner

end

/-! ## Whole codes -/

/-- Past the end of a code there is nothing to be out of order. -/
theorem Code.linedFor_end {i : Nat} (hcode : code.instrs.length ≤ i) (howners : owners.length ≤ i) :
    code.LinedFor owners n i line := by
  cases n with
  | zero => trivial
  | succ n =>
    rw [LinedFor, List.getElem?_eq_none hcode, List.getElem?_eq_none howners]
    exact ⟨nofun, nofun⟩

/-- The codes of a program run under the lines that own them from their beginning on. -/
theorem Program.Table.lined {program : Program} (hascends : Ascending program)
    (h : program.Table code owners) : code.Lined owners 0 code.firstLine := by
  intro n
  cases h with
  | script =>
    have hcode := program.emit.holds_instrs
    refine Stmt.linedFor_emitAll program hascends hcode lists_self (by rintro _ ⟨⟩)
      (fun _ _ _ => rfl) fun l _ => linedFor_end ?_ ?_
    · simp [Program.emit]
    · simp [Program.owners]
  | @function d hd =>
    have hcode : d.code.Holds 0 (_ ++ _) := d.code.holds_instrs
    have hlisted : Lists d.owners 0 (_ ++ _) := lists_self
    simp only [holds_append, holds_cons, Stmt.length_emitAll] at hcode
    simp only [lists_append, lists_cons, Stmt.length_ownersOf] at hlisted
    obtain ⟨hbody, hvalue, hleave, -⟩ := hcode
    obtain ⟨hbodyOwners, hvalueOwner, hleaveOwner, -⟩ := hlisted
    refine Stmt.linedFor_emitAll d.body (hascends.stmt_of_mem hd).define_body hbody hbodyOwners
      (by rintro _ ⟨⟩) (fun _ _ _ => rfl) fun l _ => ?_
    refine linedFor_unowned hvalue hvalueOwner rfl (List.forall_mem_singleton.2 ?_)
    refine linedFor_unowned hleave hleaveOwner rfl (List.forall_mem_singleton.2 ?_)
    exact linedFor_end (by simp [Definition.code]) (by simp [Definition.owners])

end Linewise
