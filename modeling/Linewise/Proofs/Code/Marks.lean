import Linewise.Proofs.Code.Definitions

/-!
# Marks of the same line

A `line` instruction shows the line that it marks. Statements that share a line are meant to share
its mark, so a frame should not run a mark of the line that it is on already, unless the header of
a loop on that line is evaluated anew (`Code.Rechecks`).

Whether a mark is left out is settled by the line that the statement before *starts* on, or the
header before; what counts is the line that execution comes from. The two differ where a statement
*ends* on a later line than it starts on, as a conditional or a loop may (`Stmt.ends`), and an
`elif` and the body of an `else` have their marks in any case. A line is *crowded*
(`Stmt.crowdedOf`) when a mark of it can be run on that very line in one of these ways. No other
line has such a mark but at the head of a loop (`Program.rechecks_or_crowds`).
-/

namespace Linewise

variable {ι : Type}

/-! ## Where statements end -/

mutual

/-- The lines of the `break`s in a statement that leave the loop around it. -/
def Stmt.breaks : Stmt ι → List Line
  | .breakLoop line => [line]
  | .branch _ _ body otherwise => Stmt.breaksOf body ++ otherwise.breaks
  | .expr .. | .assign .. | .assignItem .. | .whileLoop .. | .forLoop .. | .define .. | .leave ..
  | .continueLoop _ | .pass _ => []

/-- The lines of the `break`s in what a conditional may go on with. -/
def Otherwise.breaks : Otherwise ι → List Line
  | .nothing => []
  | .body body => Stmt.breaksOf body
  | .arm _ _ body otherwise => Stmt.breaksOf body ++ otherwise.breaks

/-- The lines of the `break`s in some statements. -/
def Stmt.breaksOf : List (Stmt ι) → List Line
  | [] => []
  | stmt :: rest => stmt.breaks ++ Stmt.breaksOf rest

end

mutual

/-- The lines that a statement may end on, when what follows it is run next. -/
def Stmt.ends : Stmt ι → List Line
  | .branch line _ body otherwise => Stmt.endsOf [line] body ++ otherwise.ends line
  | .whileLoop line _ body | .forLoop line _ _ body => line :: Stmt.breaksOf body
  | .leave .. | .breakLoop _ | .continueLoop _ => []
  | .expr line _ | .assign line .. | .assignItem line .. | .define line .. | .pass line => [line]

/-- The lines that a conditional may end on when a test on the line `before` has failed. -/
def Otherwise.ends (before : Line) : Otherwise ι → List Line
  | .nothing => [before]
  | .body body => Stmt.endsOf [before] body
  | .arm line _ body otherwise => Stmt.endsOf [line] body ++ otherwise.ends line

/-- The lines that some statements may end on, when they begin on one of `lines`. -/
def Stmt.endsOf (lines : List Line) : List (Stmt ι) → List Line
  | [] => lines
  | stmt :: rest => Stmt.endsOf stmt.ends rest

end

mutual

/-- The lines of the `break`s in a statement are lines of the statement. -/
theorem Stmt.breaks_subset : ∀ stmt : Stmt ι, stmt.breaks ⊆ stmt.lines
  | .breakLoop _ => List.Subset.refl _
  | .branch _ _ body otherwise => by
    refine List.subset_append_of_subset_right _ (List.append_subset.2 ⟨?_, ?_⟩)
    · exact List.subset_append_of_subset_left _ (Stmt.breaksOf_subset body)
    · exact List.subset_append_of_subset_right _ (Otherwise.breaks_subset otherwise)
  | .expr .. | .assign .. | .assignItem .. | .whileLoop .. | .forLoop .. | .define .. | .leave ..
  | .continueLoop _ | .pass _ => List.nil_subset _

theorem Otherwise.breaks_subset : ∀ otherwise : Otherwise ι, otherwise.breaks ⊆ otherwise.lines
  | .nothing => List.nil_subset _
  | .body body => Stmt.breaksOf_subset body
  | .arm _ _ body otherwise => by
    refine List.subset_append_of_subset_right _ (List.append_subset.2 ⟨?_, ?_⟩)
    · exact List.subset_append_of_subset_left _ (Stmt.breaksOf_subset body)
    · exact List.subset_append_of_subset_right _ (Otherwise.breaks_subset otherwise)

theorem Stmt.breaksOf_subset : ∀ stmts : List (Stmt ι), Stmt.breaksOf stmts ⊆ Stmt.linesOf stmts
  | [] => List.nil_subset _
  | stmt :: rest => List.append_subset.2
    ⟨List.subset_append_of_subset_left _ (Stmt.breaks_subset stmt),
      List.subset_append_of_subset_right _ (Stmt.breaksOf_subset rest)⟩

end

mutual

/-- A statement ends on a line in it. -/
theorem Stmt.ends_subset : ∀ stmt : Stmt ι, stmt.ends ⊆ stmt.lines
  | .branch line _ body otherwise => by
    have hbody := Stmt.endsOf_subset [line] body
    have hotherwise := Otherwise.ends_subset line otherwise
    intro l hl
    simp only [Stmt.lines, Stmt.marks, List.mem_append, List.mem_singleton]
    rcases List.mem_append.1 hl with hl | hl
    · exact (List.mem_cons.1 (hbody hl)).imp_right .inl
    · exact (List.mem_cons.1 (hotherwise hl)).imp_right .inr
  | .whileLoop line _ body | .forLoop line _ _ body =>
    List.cons_subset_cons line (Stmt.breaksOf_subset body)
  | .leave .. | .breakLoop _ | .continueLoop _ => List.nil_subset _
  | .expr .. | .assign .. | .assignItem .. | .pass _ => List.Subset.refl _
  | .define .. => List.cons_subset_cons _ (List.nil_subset _)

/-- What a conditional goes on with ends on the line of the test before it or on one of its own. -/
theorem Otherwise.ends_subset (before : Line) :
    ∀ otherwise : Otherwise ι, otherwise.ends before ⊆ before :: otherwise.lines
  | .nothing => List.Subset.refl _
  | .body body => Stmt.endsOf_subset [before] body
  | .arm line _ body otherwise => by
    have hbody := Stmt.endsOf_subset [line] body
    have hotherwise := Otherwise.ends_subset line otherwise
    intro l hl
    simp only [Otherwise.lines, Otherwise.marks, List.mem_cons, List.mem_append,
      List.not_mem_nil, or_false]
    rcases List.mem_append.1 hl with hl | hl
    · exact .inr ((List.mem_cons.1 (hbody hl)).imp_right .inl)
    · exact .inr ((List.mem_cons.1 (hotherwise hl)).imp_right .inr)

/-- Statements end on one of the lines that execution comes from or on one of their own. -/
theorem Stmt.endsOf_subset (lines : List Line) :
    ∀ stmts : List (Stmt ι), Stmt.endsOf lines stmts ⊆ lines ++ Stmt.linesOf stmts
  | [] => List.subset_append_left _ _
  | stmt :: rest => by
    have hrest := Stmt.endsOf_subset stmt.ends rest
    have hlines : stmt.ends ++ Stmt.linesOf rest ⊆ Stmt.linesOf (stmt :: rest) :=
      List.append_subset.2
        ⟨List.subset_append_of_subset_left _ (Stmt.ends_subset stmt), List.subset_append_right _ _⟩
    exact fun _ hl => List.mem_append_right _ (hlines (hrest hl))

end

/-! ## Crowded lines -/

mutual

/-- The lines in a statement that are shown again although they are shown already. -/
def Stmt.crowded : Stmt ι → List Line
  | .branch line _ body otherwise => Stmt.crowdedOf line [line] body ++ otherwise.crowded line
  | .whileLoop line _ body | .forLoop line _ _ body => Stmt.crowdedOf line [line] body
  | .expr .. | .assign .. | .assignItem .. | .define .. | .leave .. | .breakLoop _
  | .continueLoop _ | .pass _ => []

/-- The crowded lines in what a conditional goes on with when a test on the line `before` has
    failed. -/
def Otherwise.crowded (before : Line) : Otherwise ι → List Line
  | .nothing => []
  | .body body => Stmt.crowdedOf 0 [before] body
  | .arm line _ body otherwise =>
    (if line = before then [line] else []) ++
      (Stmt.crowdedOf line [line] body ++ otherwise.crowded line)

/-- The crowded lines in some statements that stand after code of the line `before` and begin on
    one of `lines`: a statement is marked on its line if that is not `before`. -/
def Stmt.crowdedOf (before : Line) (lines : List Line) : List (Stmt ι) → List Line
  | [] => []
  | stmt :: rest =>
    (if stmt.line ≠ before ∧ stmt.line ∈ lines then [stmt.line] else []) ++
      (stmt.crowded ++ Stmt.crowdedOf stmt.line stmt.ends rest)

end

/-- A line of a code of a program is crowded. -/
inductive Program.Crowds (program : Program) (line : Line) : Code → Prop
  | script : line ∈ Stmt.crowdedOf 0 [0] program → Crowds program line program.emit
  | function {d : Definition} : d ∈ program.definitions →
      line ∈ Stmt.crowdedOf d.line [d.line] d.body → Crowds program line d.code

/-! ## Fresh marks -/

/-- The addresses that execution may go on at in the same frame, after the instruction at `i`. A
    return leaves the frame. -/
def Instr.onward (i : Nat) : Instr → List Nat
  | .leave => []
  | instr => instr.successors i

/-- Wherever an instruction leads to is among the addresses that it may go on at. -/
theorem Instr.mem_onward {instr : Instr} {p q : Place} {i : Nat} (hp : p.next = i + 1)
    (h : q ∈ instr.exits p) : q.next ∈ instr.onward i := by
  cases instr with
  | leave => cases h
  | _ => exact next_mem_successors hp h

namespace Code

/-- The mark at an address is that of the header of a loop on its line. It is run before the header
    is evaluated anew: for the first time, the jump in front of it leads past it. -/
structure Rechecks (code : Code) (line : Line) (head : Nat) : Prop where
  skipped : ∃ i, head = i + 1 ∧ code.instrs[i]? = some (.jump (head + 1))
  loop : (∃ test body exit, code.HoldsWhile line test body head exit) ∨
    ∃ var body exit, code.HoldsFor line var body head exit

/-- The head of a loop that rechecks marks its line. -/
theorem Rechecks.atHead {code : Code} {line : Line} {head : Nat} (h : code.Rechecks line head) :
    code.instrs[head]? = some (.line line) := by
  rcases h.loop with ⟨test, body, exit, hloop⟩ | ⟨var, body, exit, hloop⟩
  · exact hloop.atHead
  · exact hloop.atHead

/-- With the frame on a line, an instruction does not mark that line, unless it is at the head of a
    loop or the line is crowded. -/
def FreshAt (code : Code) (crowded : Line → Prop) (i : Nat) (line : Line) : Prop :=
  code.instrs[i]? = some (.line line) → code.Rechecks line i ∨ crowded line

/-- From an address on, with the frame on a line, a code runs fresh marks for `n` instructions. -/
def FreshFor (code : Code) (crowded : Line → Prop) : (n : Nat) → Nat → Line → Prop
  | 0, _, _ => True
  | n + 1, i, line => code.FreshAt crowded i line ∧
    ∀ instr, code.instrs[i]? = some instr →
      ∀ j ∈ instr.onward i, code.FreshFor crowded n j (instr.lineAfter line)

variable {code : Code} {crowded : Line → Prop} {m n i target : Nat} {instr : Instr}
  {line line' : Line}

/-- What has fresh marks for some instructions has them for fewer. -/
theorem FreshFor.mono (h : code.FreshFor crowded n i line) (hle : m ≤ n) :
    code.FreshFor crowded m i line := by
  induction n generalizing m i line with
  | zero => rwa [Nat.le_zero.1 hle]
  | succ n ih =>
    cases m with
    | zero => trivial
    | succ m =>
      obtain ⟨hfresh, hnext⟩ := h
      exact ⟨hfresh, fun instr hinstr j hj =>
        ih (hnext instr hinstr j hj) (Nat.le_of_succ_le_succ hle)⟩

theorem freshFor_succ (hinstr : code.instrs[i]? = some instr)
    (hfresh : code.FreshAt crowded i line)
    (h : ∀ j ∈ instr.onward i, code.FreshFor crowded n j (instr.lineAfter line)) :
    code.FreshFor crowded (n + 1) i line :=
  ⟨hfresh, fun _ hinstr' => by cases hinstr.symm.trans hinstr'; exact h⟩

/-- An instruction that is no mark is fresh. -/
theorem freshAt_of_ne (hinstr : code.instrs[i]? = some instr) (hmark : ∀ l, instr ≠ .line l) :
    code.FreshAt crowded i line :=
  fun h => absurd (Option.some.inj (hinstr.symm.trans h)) (hmark line)

/-- An instruction that is no mark is in order where all that it leads to is. -/
theorem freshFor_of_onward (hinstr : code.instrs[i]? = some instr) (hmark : ∀ l, instr ≠ .line l)
    (h : ∀ j ∈ instr.onward i, code.FreshFor crowded n j line) :
    code.FreshFor crowded n i line := by
  have hline : instr.lineAfter line = line := by
    cases instr with
    | line l => exact absurd rfl (hmark l)
    | _ => rfl
  exact (freshFor_succ hinstr (freshAt_of_ne hinstr hmark) (hline.symm ▸ h)).mono (Nat.le_succ n)

/-- An instruction with nowhere else to go. -/
theorem freshFor_next (hinstr : code.instrs[i]? = some instr) (honward : instr.onward i = [target])
    (hmark : ∀ l, instr ≠ .line l) (h : code.FreshFor crowded n target line) :
    code.FreshFor crowded n i line :=
  freshFor_of_onward hinstr hmark (honward ▸ List.forall_mem_singleton.2 h)

/-- A mark is in order where the line is not the one that the frame is on, or is crowded. -/
theorem freshFor_line (hinstr : code.instrs[i]? = some (.line line))
    (hcrowded : line = line' → crowded line) (h : code.FreshFor crowded n (i + 1) line) :
    code.FreshFor crowded n i line' := by
  refine (freshFor_succ hinstr (fun hmark => .inr ?_) (List.forall_mem_singleton.2 h)).mono
    (Nat.le_succ n)
  cases hinstr.symm.trans hmark
  exact hcrowded rfl

/-- A jump back is in order for one instruction more than its target. -/
theorem freshFor_jump_back (hinstr : code.instrs[i]? = some (.jump target))
    (h : ∀ m < n, code.FreshFor crowded m target line) : code.FreshFor crowded n i line := by
  cases n with
  | zero => trivial
  | succ n =>
    exact freshFor_succ hinstr (freshAt_of_ne hinstr nofun)
      (List.forall_mem_singleton.2 (h n (Nat.lt_succ_self n)))

/-- The head of a loop is in order when one round is, for as many instructions as the head has been
    shown to be in order for before. -/
theorem freshFor_head (hhead : code.Rechecks line i)
    (hround : ∀ m ≤ n, (∀ k < m, ∀ line', code.FreshFor crowded k i line') →
      code.FreshFor crowded m (i + 1) line) :
    ∀ m ≤ n, ∀ line', code.FreshFor crowded m i line' := by
  intro m
  induction m using Nat.strongRecOn with
  | ind m ih =>
    intro hm line'
    refine (freshFor_succ hhead.atHead (fun hmark => .inl ?_) (List.forall_mem_singleton.2
      (hround m hm fun k hk => ih k hk (Nat.le_trans (Nat.le_of_lt hk) hm)))).mono (Nat.le_succ m)
    cases hhead.atHead.symm.trans hmark
    exact hhead

end Code

open Code

variable {code : Code} {crowded : Line → Prop} {loop : Option Loop} {before line : Line}
  {n start next finish : Nat}

/-! ## Expressions -/

mutual

/-- An expression marks nothing. -/
theorem Expr.freshFor_emit : ∀ (e : Expr Int64) {start : Nat}, code.Holds start (e.emit start) →
    code.FreshFor crowded n (start + e.codeSize) line → code.FreshFor crowded n start line
  | .int _, _, hcode, h | .float _, _, hcode, h | .str _, _, hcode, h | .bool _, _, hcode, h
  | .none, _, hcode, h | .ident _, _, hcode, h => freshFor_next hcode.1 rfl nofun h
  | .list items, start, hcode, h => by
    simp only [emit, holds_append, holds_cons, Expr.length_emitAll] at hcode
    obtain ⟨hitems, hbuild, -⟩ := hcode
    exact Expr.freshFor_emitAll items hitems (freshFor_next hbuild rfl nofun h)
  | .subscript object index, start, hcode, h => by
    simp only [emit, holds_append, holds_cons, Expr.length_emit, List.length_append,
      ← Nat.add_assoc] at hcode
    obtain ⟨⟨hobject, hindex⟩, hinstr, -⟩ := hcode
    simp only [codeSize, ← Nat.add_assoc] at h
    exact Expr.freshFor_emit object hobject
      (Expr.freshFor_emit index hindex (freshFor_next hinstr rfl nofun h))
  | .call callee args, start, hcode, h => by
    simp only [emit, holds_append, holds_cons, Expr.length_emit, Expr.length_emitAll,
      List.length_append, ← Nat.add_assoc] at hcode
    obtain ⟨⟨hcallee, hargs⟩, hinstr, -⟩ := hcode
    simp only [codeSize, ← Nat.add_assoc] at h
    exact Expr.freshFor_emit callee hcallee
      (Expr.freshFor_emitAll args hargs (freshFor_next hinstr rfl nofun h))
  | .unary _ operand, start, hcode, h => by
    simp only [emit, holds_append, holds_cons, Expr.length_emit] at hcode
    obtain ⟨hoperand, hinstr, -⟩ := hcode
    exact Expr.freshFor_emit operand hoperand (freshFor_next hinstr rfl nofun h)
  | .binary _ left right, start, hcode, h => by
    simp only [emit, holds_append, holds_cons, Expr.length_emit, List.length_append,
      ← Nat.add_assoc] at hcode
    obtain ⟨⟨hleft, hright⟩, hinstr, -⟩ := hcode
    simp only [codeSize, ← Nat.add_assoc] at h
    exact Expr.freshFor_emit left hleft
      (Expr.freshFor_emit right hright (freshFor_next hinstr rfl nofun h))
  | .logic op left right, start, hcode, h => by
    simp only [emit, holds_append, holds_cons, Expr.length_emit] at hcode
    obtain ⟨hleft, hjump, hright⟩ := hcode
    simp only [codeSize, ← Nat.add_assoc] at h
    refine Expr.freshFor_emit left hleft ?_
    -- The jump goes on with the right operand or behind it, and there is no mark either way.
    have hnext := Expr.freshFor_emit right hright h
    cases op <;> exact freshFor_of_onward hjump nofun
      (List.forall_mem_cons.2 ⟨hnext, List.forall_mem_singleton.2 h⟩)

theorem Expr.freshFor_emitAll : ∀ (items : List (Expr Int64)) {start : Nat},
    code.Holds start (Expr.emitAll start items) →
    code.FreshFor crowded n (start + Expr.codeSizeOf items) line →
    code.FreshFor crowded n start line
  | [], _, _, h => h
  | item :: rest, start, hcode, h => by
    simp only [emitAll, holds_append, Expr.length_emit] at hcode
    simp only [codeSizeOf, ← Nat.add_assoc] at h
    exact Expr.freshFor_emit item hcode.1 (Expr.freshFor_emitAll rest hcode.2 h)

end

/-! ## Statements -/

/-- A loop can be left for the place after it from any of some lines, and it can go on with its
    head for less than `n` instructions from any line. -/
structure Loop.FreshFor (loop : Loop) (code : Code) (crowded : Line → Prop) (n : Nat)
    (lines : List Line) : Prop where
  head : ∀ m < n, ∀ line, code.FreshFor crowded m loop.head line
  exit : ∀ line ∈ lines, code.FreshFor crowded n loop.exit line

/-- What a body may rely on: it is in a loop as far as it may leave one, and that can be left from
    all lines of its `break`s. -/
structure Loop.Serves (loop : Option Loop) (around : Surroundings) (code : Code)
    (crowded : Line → Prop) (n : Nat) (lines : List Line) : Prop where
  inLoop : around.inLoop = true → loop ≠ none
  fresh : ∀ l, loop = some l → l.FreshFor code crowded n lines

/-- A loop that serves some lines serves fewer. -/
theorem Loop.Serves.of_subset {around : Surroundings} {lines lines' : List Line}
    (h : Loop.Serves loop around code crowded n lines) (hsub : lines' ⊆ lines) :
    Loop.Serves loop around code crowded n lines' :=
  ⟨h.inLoop, fun l hl => ⟨(h.fresh l hl).head, fun line hline => (h.fresh l hl).exit line
    (hsub hline)⟩⟩

/-- Where there is no loop, none can be left. -/
theorem Loop.serves_none {around : Surroundings} {lines : List Line}
    (haround : around.inLoop = false) : Loop.Serves none around code crowded n lines where
  inLoop hinside := by
    rw [haround] at hinside
    cases hinside
  fresh _ hloop := by cases hloop

/-- A body serves itself with the loop that it is the body of. -/
theorem Loop.FreshFor.serves {l : Loop} {around : Surroundings} {lines : List Line}
    (h : l.FreshFor code crowded n lines) :
    Loop.Serves (some l) around code crowded n lines :=
  ⟨nofun, by rintro _ ⟨⟩; exact h⟩

/-- An arm of a conditional is in order when the beginning of its body is, and the place that a
    failed test leads to. -/
theorem Code.HoldsArm.freshFor {test : Expr Int64} {body : List (Stmt Int64)}
    {otherwise : Otherwise Int64} {lines : List Line}
    (h : code.HoldsArm loop line test body otherwise start next finish)
    (hfinish : ∀ l ∈ lines, code.FreshFor crowded n finish l)
    (hbody : (∀ l ∈ lines, code.FreshFor crowded n (start + test.codeSize + 1 +
        Stmt.codeSizeOf (loop.map Loop.kind) line body) l) →
      code.FreshFor crowded n (start + test.codeSize + 1) line)
    (hnext : code.FreshFor crowded n next line) : code.FreshFor crowded n start line := by
  refine test.freshFor_emit h.holdsTest (freshFor_of_onward h.atJump nofun ?_)
  refine List.forall_mem_cons.2 ⟨hbody fun l hl => ?_, List.forall_mem_singleton.2 hnext⟩
  exact freshFor_next h.atLast rfl nofun (hfinish l hl)

/-- A loop on a condition is in order from its test on when its body is. -/
theorem Code.HoldsWhile.freshFor {test : Expr Int64} {body : List (Stmt Int64)} {head exit : Nat}
    {lines : List Line} (h : code.HoldsWhile line test body head exit)
    (hhead : code.Rechecks line head)
    (hexit : ∀ l ∈ line :: lines, code.FreshFor crowded n exit l)
    (hbody : ∀ m, Loop.FreshFor ⟨.testing, head, exit⟩ code crowded m lines →
      (∀ l, code.FreshFor crowded m (head + 1 + test.codeSize + 1 +
        Stmt.codeSizeOf (some .testing) line body) l) →
      code.FreshFor crowded m (head + 1 + test.codeSize + 1) line) :
    code.FreshFor crowded n (head + 1) line := by
  -- One round leads to the exit, or by the closing jump or a `continue` back to the head.
  have hround : ∀ m ≤ n, (∀ k < m, ∀ l, code.FreshFor crowded k head l) →
      code.FreshFor crowded m (head + 1) line := by
    intro m hm hagain
    have hleave : ∀ l ∈ line :: lines, code.FreshFor crowded m exit l :=
      fun l hl => (hexit l hl).mono hm
    refine test.freshFor_emit h.holdsTest (freshFor_of_onward h.atJump nofun ?_)
    refine List.forall_mem_cons.2
      ⟨?_, List.forall_mem_singleton.2 (hleave line List.mem_cons_self)⟩
    exact hbody m ⟨hagain, fun l hl => hleave l (List.mem_cons_of_mem _ hl)⟩
      fun l => freshFor_jump_back h.atLast fun k hk => hagain k hk l
  exact hround n (Nat.le_refl n) fun k hk => freshFor_head hhead hround k (Nat.le_of_lt hk)

/-- A loop over items is in order from where it takes the next one on when its body is. -/
theorem Code.HoldsFor.freshFor {var : String} {body : List (Stmt Int64)} {head exit : Nat}
    {lines : List Line} (h : code.HoldsFor line var body head exit)
    (hhead : code.Rechecks line head)
    (hexit : ∀ l ∈ line :: lines, code.FreshFor crowded n exit l)
    (hbody : ∀ m, Loop.FreshFor ⟨.iterating, head, exit⟩ code crowded m lines →
      (∀ l, code.FreshFor crowded m (head + 3 + Stmt.codeSizeOf (some .iterating) line body) l) →
      code.FreshFor crowded m (head + 3) line) :
    code.FreshFor crowded n (head + 1) line := by
  have hround : ∀ m ≤ n, (∀ k < m, ∀ l, code.FreshFor crowded k head l) →
      code.FreshFor crowded m (head + 1) line := by
    intro m hm hagain
    have hleave : ∀ l ∈ line :: lines, code.FreshFor crowded m exit l :=
      fun l hl => (hexit l hl).mono hm
    refine freshFor_of_onward h.atNext (fun _ hmark => by cases hmark) (List.forall_mem_cons.2
      ⟨?_, List.forall_mem_singleton.2 (hleave line List.mem_cons_self)⟩)
    refine freshFor_next h.atStore rfl (fun _ hmark => by cases hmark) ?_
    exact hbody m ⟨hagain, fun l hl => hleave l (List.mem_cons_of_mem _ hl)⟩
      fun l => freshFor_jump_back h.atLast fun k hk => hagain k hk l
  exact hround n (Nat.le_refl n) fun k hk => freshFor_head hhead hround k (Nat.le_of_lt hk)

mutual

/-- A statement is in order from its line on when all places that it can be left for are, from the
    lines that it may end on. -/
theorem Stmt.freshFor_emit : ∀ (stmt : Stmt Int64) {around : Surroundings} {loop : Option Loop}
    {start n : Nat}, Legal around [stmt] → Ascending [stmt] →
    code.Holds start (stmt.emit loop start) →
    (∀ l ∈ stmt.crowded, crowded l) → Loop.Serves loop around code crowded n stmt.breaks →
    (∀ l ∈ stmt.ends,
      code.FreshFor crowded n (start + stmt.codeSize (loop.map Loop.kind)) l) →
    code.FreshFor crowded n start stmt.line
  | .expr line value, _, _, start, _, _, _, hcode, _, _, h
  | .assign line _ value, _, _, start, _, _, _, hcode, _, _, h => by
    simp only [Stmt.emit, holds_append, holds_cons, Expr.length_emit] at hcode
    obtain ⟨hvalue, hinstr, -⟩ := hcode
    exact value.freshFor_emit hvalue
      (freshFor_next hinstr rfl nofun (h line (List.mem_singleton_self _)))
  | .assignItem line _ index value, _, _, start, _, _, _, hcode, _, _, h => by
    simp only [Stmt.emit, holds_append, holds_cons, Expr.length_emit, List.length_append,
      ← Nat.add_assoc] at hcode
    obtain ⟨⟨hindex, hvalue⟩, hinstr, -⟩ := hcode
    simp only [Stmt.codeSize, ← Nat.add_assoc] at h
    exact index.freshFor_emit hindex (value.freshFor_emit hvalue
      (freshFor_next hinstr rfl nofun (h line (List.mem_singleton_self _))))
  | .branch line test body otherwise, around, loop, start, n, hlegal, hascends, hcode, hcrowded,
      hloop, h => by
    obtain ⟨next, finish, harm, hfinish, hsize⟩ := hcode.branch
    rw [← hsize] at h
    obtain ⟨hinner, houter⟩ := List.forall_mem_append.1 h
    obtain ⟨hbodyCrowded, hotherwise⟩ := List.forall_mem_append.1 hcrowded
    -- Execution leaves the test for the body or for what follows, both from the line of the test.
    refine harm.freshFor hinner (fun hend => ?_) ?_
    · exact Stmt.freshFor_emitAll body hlegal.branch_body hascends.branch_body harm.holdsBody
        hbodyCrowded (hloop.of_subset (List.subset_append_left _ _)) (List.mem_singleton_self _)
        (fun _ _ _ => rfl) hend
    · exact Otherwise.freshFor_emit otherwise hlegal.branch_otherwise hascends.branch_otherwise
        harm.holdsOtherwise hotherwise (hloop.of_subset (List.subset_append_right _ _))
        hfinish.symm houter
  | .whileLoop line test body, around, loop, start, n, hlegal, hascends, hcode, hcrowded, _, h => by
    obtain ⟨exit, hjump, hwhile, hsize⟩ := hcode.whileLoop
    rw [← hsize] at h
    -- The mark at the head is run on its own line, which is allowed there: the test is evaluated
    -- anew.
    have hhead : code.Rechecks line (start + 1) :=
      ⟨⟨start, rfl, hjump⟩, .inl ⟨test, body, exit, hwhile⟩⟩
    refine freshFor_next hjump rfl nofun (hwhile.freshFor hhead h fun m hloop hend => ?_)
    exact Stmt.freshFor_emitAll body hlegal.while_body hascends.while_body hwhile.holdsBody hcrowded
      hloop.serves (List.mem_singleton_self _) (fun _ _ _ => rfl) fun l _ => hend l
  | .forLoop line var iterable body, around, loop, start, n, hlegal, hascends, hcode, hcrowded,
      _, h => by
    obtain ⟨head, exit, hiterable, hopen, hjump, rfl, hfor, hsize⟩ := hcode.forLoop
    rw [← hsize] at h
    have hhead : code.Rechecks line (start + iterable.codeSize + 2) :=
      ⟨⟨start + iterable.codeSize + 1, rfl, hjump⟩, .inr ⟨var, body, exit, hfor⟩⟩
    refine iterable.freshFor_emit hiterable (freshFor_next hopen rfl nofun ?_)
    refine freshFor_next hjump rfl nofun (hfor.freshFor hhead h fun m hloop hend => ?_)
    exact Stmt.freshFor_emitAll body hlegal.for_body hascends.for_body hfor.holdsBody hcrowded
      hloop.serves (List.mem_singleton_self _) (fun _ _ _ => rfl) fun l _ => hend l
  | .define line .., _, _, start, _, _, _, hcode, _, _, h =>
    freshFor_next hcode.1 rfl nofun (freshFor_next hcode.2.1 rfl nofun
      (h line (List.mem_singleton_self _)))
  | .leave line none, _, _, start, _, _, _, hcode, _, _, _ =>
    freshFor_next hcode.1 rfl nofun (freshFor_of_onward hcode.2.1 nofun nofun)
  | .leave line (some value), _, _, start, _, _, _, hcode, _, _, _ => by
    simp only [Stmt.emit, holds_append, holds_cons, Expr.length_emit] at hcode
    exact value.freshFor_emit hcode.1 (freshFor_of_onward hcode.2.1 nofun nofun)
  | .breakLoop line, _, none, _, _, hlegal, _, _, _, hloop, _ =>
    absurd rfl (hloop.inLoop hlegal.breakLoop)
  | .continueLoop line, _, none, _, _, hlegal, _, _, _, hloop, _ =>
    absurd rfl (hloop.inLoop hlegal.continueLoop)
  | .pass line, _, _, _, _, _, _, _, _, _, h => h line List.mem_cons_self
  | .breakLoop line, _, some ⟨.testing, _, _⟩, _, _, _, _, hcode, _, hloop, _ =>
    freshFor_next hcode.1 rfl nofun ((hloop.fresh _ rfl).exit line List.mem_cons_self)
  | .breakLoop line, _, some ⟨.iterating, _, _⟩, start, _, _, _, hcode, _, hloop, _ =>
    freshFor_next hcode.1 rfl nofun (freshFor_next hcode.2.1 rfl nofun
      ((hloop.fresh _ rfl).exit line List.mem_cons_self))
  | .continueLoop line, _, some _, _, _, _, _, hcode, _, hloop, _ =>
    freshFor_jump_back hcode.1 fun m hm => (hloop.fresh _ rfl).head m hm line

/-- What a conditional goes on with has fresh marks from the line of the test that failed, unless
    one of its lines is crowded, when the end of the conditional has from any line that it may end
    on. -/
theorem Otherwise.freshFor_emit : ∀ (otherwise : Otherwise Int64) {around : Surroundings}
    {loop : Option Loop} {finish start n : Nat} {line : Line}, Legal around otherwise.toStmts →
    Ascending otherwise.toStmts →
    code.Holds start (otherwise.emit loop finish start) →
    (∀ l ∈ otherwise.crowded line, crowded l) →
    Loop.Serves loop around code crowded n otherwise.breaks →
    start + otherwise.codeSize (loop.map Loop.kind) = finish →
    (∀ l ∈ otherwise.ends line, code.FreshFor crowded n finish l) →
    code.FreshFor crowded n start line
  | .nothing, _, _, _, _, _, line, _, _, _, _, _, hfinish, h => by
    rw [← hfinish] at h
    exact h line List.mem_cons_self
  | .body body, _, _, _, _, _, line, hlegal, hascends, hcode, hcrowded, hloop, hfinish, h => by
    subst hfinish
    refine Stmt.freshFor_emitAll body hlegal hascends hcode hcrowded hloop
      (List.mem_singleton_self _) (fun first hfirst hzero => ?_) h
    exact absurd hzero (hascends.ne_zero _ (Stmt.line_mem_linesOf hfirst))
  | .arm line test body otherwise, around, loop, finish, start, n, line', hlegal, hascends,
      hcode, hcrowded, hloop, hfinish, h => by
    obtain ⟨next, hline, harm, hsize⟩ := hcode.arm
    obtain ⟨hinner, houter⟩ := List.forall_mem_append.1 h
    obtain ⟨hhere, hparts⟩ := List.forall_mem_append.1 hcrowded
    obtain ⟨hbodyCrowded, hotherwise⟩ := List.forall_mem_append.1 hparts
    -- An arm has its mark also on the line of the test before it, which is a crowded line then.
    refine freshFor_line hline (fun heq => hhere line ?_) (harm.freshFor hinner (fun hend => ?_) ?_)
    · rw [if_pos heq]
      exact List.mem_singleton_self _
    · exact Stmt.freshFor_emitAll body hlegal.branch_body hascends.branch_body harm.holdsBody
        hbodyCrowded (hloop.of_subset (List.subset_append_left _ _)) (List.mem_singleton_self _)
        (fun _ _ _ => rfl) hend
    · exact Otherwise.freshFor_emit otherwise hlegal.branch_otherwise hascends.branch_otherwise
        harm.holdsOtherwise hotherwise (hloop.of_subset (List.subset_append_right _ _))
        (hsize.trans hfinish) houter

/-- Statements have fresh marks from any of some lines that execution may come from, unless one of
    their lines is crowded, when their end has from any line that they may end on. -/
theorem Stmt.freshFor_emitAll : ∀ (stmts : List (Stmt Int64)) {around : Surroundings}
    {loop : Option Loop} {before line : Line} {lines : List Line} {start n : Nat},
    Legal around stmts → Ascending stmts →
    code.Holds start (Stmt.emitAll loop before start stmts) →
    (∀ l ∈ Stmt.crowdedOf before lines stmts, crowded l) →
    Loop.Serves loop around code crowded n (Stmt.breaksOf stmts) → line ∈ lines →
    (∀ first ∈ stmts.head?, first.line = before → line = before) →
    (∀ l ∈ Stmt.endsOf lines stmts,
      code.FreshFor crowded n (start + Stmt.codeSizeOf (loop.map Loop.kind) before stmts) l) →
    code.FreshFor crowded n start line
  | [], _, _, _, line, _, _, _, _, _, _, _, _, hline, _, h => h line hline
  | stmt :: rest, around, loop, before, line, lines, start, n, hlegal, hascends, hcode,
      hcrowded, hloop, hmem, hcurrent, h => by
    simp only [Stmt.emitAll, holds_append, List.length_append, length_emitLine, Stmt.length_emit,
      ← Nat.add_assoc] at hcode
    obtain ⟨⟨hmark, hstmt⟩, hrest⟩ := hcode
    simp only [Stmt.codeSizeOf, ← Nat.add_assoc] at h
    obtain ⟨hhere, hparts⟩ := List.forall_mem_append.1 hcrowded
    obtain ⟨hstmtCrowded, hrestCrowded⟩ := List.forall_mem_append.1 hparts
    -- If the next statement has no mark, it is on the line that this one starts on, and this one
    -- cannot have ended on another line then, as lines do not descend.
    have hinner := Stmt.freshFor_emit stmt hlegal.head hascends.head hstmt hstmtCrowded
      (hloop.of_subset (List.subset_append_left _ _)) fun l hl =>
        Stmt.freshFor_emitAll rest hlegal.tail hascends.tail hrest hrestCrowded
          (hloop.of_subset (List.subset_append_right _ _)) hl
          (fun next hnext heq =>
            (hascends.eq_line_or (stmt.ends_subset hl)).resolve_right fun hne =>
              hne _ (Stmt.line_mem_linesOf hnext) heq)
          h
    -- Without a mark the frame stays on its line; with one, a line that it is on already is
    -- crowded.
    rw [emitLine] at hmark
    rw [lineSize] at hinner
    split at hmark
    next heq =>
      rw [if_pos heq] at hinner
      rwa [hcurrent stmt rfl heq, ← heq]
    next hne =>
      rw [if_neg hne] at hinner
      refine freshFor_line hmark.1 (fun heq => hhere _ ?_) hinner
      rw [if_pos ⟨hne, heq ▸ hmem⟩]
      exact List.mem_singleton_self _

end

/-! ## Whole codes -/

namespace Code

/-- Past the end of a code there is nothing to mark. -/
theorem freshFor_end {i : Nat} (hcode : code.instrs.length ≤ i) :
    code.FreshFor crowded n i line := by
  cases n with
  | zero => trivial
  | succ n =>
    rw [FreshFor, FreshAt, List.getElem?_eq_none hcode]
    exact ⟨nofun, nofun⟩

/-- A frame of a code can be at an address and on a line, as far as the instructions tell. -/
inductive Reaches (code : Code) : Nat → Line → Prop
  | enter : Reaches code 0 code.firstLine
  | next {i : Nat} {line : Line} {instr : Instr} {p q : Place} (h : Reaches code i line)
      (hinstr : code.instrs[i]? = some instr) (hp : p.next = i + 1) (hq : q ∈ instr.exits p) :
      Reaches code q.next (instr.lineAfter line)

/-- Fresh marks from the beginning on are fresh wherever execution comes to. -/
theorem Reaches.freshFor {i : Nat} (h : code.Reaches i line)
    (henter : ∀ n, code.FreshFor crowded n 0 code.firstLine) :
    ∀ n, code.FreshFor crowded n i line := by
  induction h with
  | enter => exact henter
  | next _ hinstr hp hq ih =>
    exact fun n => (ih (n + 1)).2 _ hinstr _ (Instr.mem_onward hp hq)

end Code

/-- The codes of a program run fresh marks from their beginning on. -/
theorem Program.freshFor_enter {program : Program} (hlegal : Legal .outermost program)
    (hascends : Ascending program) (hcode : program.HasCode code) (n : Nat) :
    code.FreshFor (fun line => program.Crowds line code) n 0 code.firstLine := by
  cases hcode with
  | script =>
    refine Stmt.freshFor_emitAll program hlegal hascends program.emit.holds_instrs
      (fun _ => Program.Crowds.script) (Loop.serves_none rfl) (List.mem_singleton_self 0)
      (fun _ _ _ => rfl) fun l _ => freshFor_end ?_
    simp [Program.emit]
  | @function d hd =>
    have hholds : d.code.Holds 0 (_ ++ _) := d.code.holds_instrs
    simp only [holds_append, holds_cons, Stmt.length_emitAll] at hholds
    obtain ⟨hbody, hvalue, hleave, -⟩ := hholds
    refine Stmt.freshFor_emitAll d.body (hlegal.stmt_of_mem hd).define_body
      (hascends.stmt_of_mem hd).define_body hbody (fun _ => Program.Crowds.function hd)
      (Loop.serves_none rfl) (List.mem_singleton_self d.line) (fun _ _ _ => rfl) fun l _ => ?_
    refine freshFor_next hvalue rfl (fun _ hmark => by cases hmark) ?_
    exact freshFor_of_onward hleave (fun _ hmark => by cases hmark) (List.forall_mem_nil _)

/-- A frame that is on a line comes to another mark of that line only at the head of a loop that
    stands on it, unless the line is crowded. -/
theorem Program.rechecks_or_crowds {program : Program} {i : Nat} (hlegal : Legal .outermost program)
    (hascends : Ascending program) (hcode : program.HasCode code) (h : code.Reaches i line)
    (hmark : code.instrs[i]? = some (.line line)) :
    code.Rechecks line i ∨ program.Crowds line code :=
  (h.freshFor (program.freshFor_enter hlegal hascends hcode) 1).1 hmark

end Linewise
