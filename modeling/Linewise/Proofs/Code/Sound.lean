import Linewise.Proofs.Code.Balance
import Linewise.Proofs.Syntax.Legal

/-!
# Sound codes

A code is sound when it runs as it should from its beginning on, no jump leads past its end, and
the same holds of the codes that it makes functions of, none of which has the name of a script's
code (`Code.Sound`). The code of every legal program is sound (`Program.sound_emit`).
-/

namespace Linewise

/-- A loop over items is opened at an address. Its code begins with the `line` instruction after
    that, which the first round jumps over, and ends with the jump back to it at `last`. -/
structure Code.LoopAt (code : Code) (opening last : Nat) : Prop where
  opens : code.instrs[opening]? = some .iterStart
  enters : code.instrs[opening + 1]? = some (.jump (opening + 3))
  marked : ∃ line, code.instrs[opening + 2]? = some (.line line)
  takes : code.instrs[opening + 3]? = some (.iterNext (last + 1))
  closes : code.instrs[last]? = some (.jump (opening + 2))

/-- The code runs as it should, and so do those of the functions that it makes. -/
inductive Code.Sound : Code → Prop
  | mk {code : Code} (safe : code.Safe ⟨0, 0, 0⟩)
      (bounded : ∀ {instr target}, instr ∈ code.instrs → target ∈ instr.targets →
        target ≤ code.instrs.length)
      (leave : .leave ∈ code.instrs → code.isModule = false)
      (iterStart : ∀ {i}, code.instrs[i]? = some .iterStart → ∃ last, code.LoopAt i last)
      (iterNext : ∀ {i exit}, code.instrs[i]? = some (.iterNext exit) →
        ∃ opening last, i = opening + 3 ∧ exit = last + 1 ∧ code.LoopAt opening last)
      (named : ∀ {inner}, .makeFunction inner ∈ code.instrs → inner.isModule = false)
      (makeFunction : ∀ {inner}, .makeFunction inner ∈ code.instrs → Sound inner) : Sound code

/-- The instruction may stand anywhere in a code that its jumps stay within. -/
def Instr.isOrdinary : Instr → Bool
  | .iterStart | .iterNext _ | .makeFunction _ | .leave => false
  | _ => true

theorem Instr.isOrdinary_of_isOperation {instr : Instr} (h : instr.isOperation = true) :
    instr.isOrdinary = true := by
  cases instr <;> first | rfl | cases h

namespace Code

/-- What a sound code has at an address. -/
structure Suits (code : Code) (i : Nat) (instr : Instr) : Prop where
  bounded : ∀ target ∈ instr.targets, target ≤ code.instrs.length
  leave : instr = .leave → code.isModule = false
  iterStart : instr = .iterStart → ∃ last, code.LoopAt i last
  iterNext : ∀ exit, instr = .iterNext exit →
    ∃ opening last, i = opening + 3 ∧ exit = last + 1 ∧ code.LoopAt opening last
  makeFunction : ∀ inner, instr = .makeFunction inner → inner.isModule = false ∧ inner.Sound

variable {code : Code} {i target : Nat} {instr : Instr}

/-- A code is sound when it is safe at its beginning and every instruction suits its address. -/
theorem sound_of_allFrom (hsafe : code.Safe ⟨0, 0, 0⟩)
    (h : Instr.AllFrom code.Suits 0 code.instrs) : code.Sound := by
  rw [Instr.allFrom_iff] at h
  have hmem : ∀ {instr}, instr ∈ code.instrs → ∃ i, code.Suits i instr := by
    intro instr hinstr
    obtain ⟨i, hi⟩ := List.getElem?_of_mem hinstr
    exact ⟨_, h i instr hi⟩
  -- Soundness asks of the instructions what the fields of `Suits` say, one after the other.
  refine .mk hsafe ?_ ?_ ?_ ?_ ?_ ?_
  · intro instr target hinstr
    obtain ⟨i, hsuits⟩ := hmem hinstr
    exact hsuits.bounded target
  · intro hinstr
    obtain ⟨i, hsuits⟩ := hmem hinstr
    exact hsuits.leave rfl
  · intro i hi
    simpa only [Nat.zero_add] using (h i _ hi).iterStart rfl
  · intro i exit hi
    simpa only [Nat.zero_add] using (h i _ hi).iterNext exit rfl
  · intro inner hinner
    obtain ⟨i, hsuits⟩ := hmem hinner
    exact (hsuits.makeFunction inner rfl).1
  · intro inner hinner
    obtain ⟨i, hsuits⟩ := hmem hinner
    exact (hsuits.makeFunction inner rfl).2

/-- An instruction that may stand anywhere suits any address, if its jumps stay in the code. -/
theorem suits_ordinary (hordinary : instr.isOrdinary = true)
    (hbounded : ∀ target ∈ instr.targets, target ≤ code.instrs.length) : code.Suits i instr := by
  refine ⟨hbounded, ?_, ?_, ?_, ?_⟩
  all_goals
    intros
    subst instr
    cases hordinary

theorem suits_jump (h : target ≤ code.instrs.length) : code.Suits i (.jump target) :=
  suits_ordinary rfl (List.forall_mem_singleton.2 h)

theorem suits_jumpIfFalse (h : target ≤ code.instrs.length) :
    code.Suits i (.jumpIfFalse target) :=
  suits_ordinary rfl (List.forall_mem_singleton.2 h)

theorem suits_leave (h : code.isModule = false) : code.Suits i .leave := by
  refine ⟨?_, fun _ => h, ?_, ?_, ?_⟩
  all_goals
    intros
    contradiction

theorem suits_iterNext {opening last : Nat} (h : target ≤ code.instrs.length)
    (hi : i = opening + 3) (htarget : target = last + 1) (hloop : code.LoopAt opening last) :
    code.Suits i (.iterNext target) :=
  ⟨List.forall_mem_singleton.2 h, nofun, nofun,
    fun _ heq => by cases heq; exact ⟨_, _, hi, htarget, hloop⟩, nofun⟩

/-- The code of a loop over items is one. -/
theorem HoldsFor.loopAt {line : Line} {var : String} {body : List (Stmt Int64)}
    {opening exit : Nat} (h : code.HoldsFor line var body (opening + 2) exit)
    (hopens : code.instrs[opening]? = some .iterStart)
    (henters : code.instrs[opening + 1]? = some (.jump (opening + 3))) :
    code.LoopAt opening
      (opening + 2 + 3 + Stmt.codeSizeOf (some .iterating) line body) where
  opens := hopens
  enters := henters
  marked := ⟨line, h.atHead⟩
  takes := h.exit_eq ▸ h.atNext
  closes := h.atLast

/-- The end of a script is safe when nothing is left over. -/
theorem safeFor_end {n : Nat} (hmodule : code.isModule = true) (hi : code.instrs.length ≤ i) :
    code.SafeFor n ⟨i, 0, 0⟩ := by
  have hend : code.instrs[i]? = none := List.getElem?_eq_none hi
  cases n with
  | zero => trivial
  | succ n =>
    rw [SafeFor, hend]
    exact ⟨fun _ h => (by cases hend.symm.trans h), hmodule, rfl, rfl⟩

/-- The code of a function is safe from its beginning on, as it ends with a return. -/
theorem safe_function {body : List (Stmt Int64)} {before : Line}
    (hinstrs : code.instrs = Stmt.emitAll none before 0 body ++ [.const .none, .leave]) :
    code.Safe ⟨0, 0, 0⟩ := by
  have hcode : code.Holds 0 (_ ++ _) := hinstrs ▸ code.holds_instrs
  have hloops : code.Surrounds 0 0 (_ ++ _) := hinstrs ▸ code.surrounds_instrs
  simp only [holds_append, holds_cons, Stmt.length_emitAll] at hcode
  obtain ⟨hbody, hvalue, hleave, -⟩ := hcode
  intro n
  refine Stmt.safeFor_emitAll body hbody (hloops.left fun _ => rfl) (by rintro _ ⟨⟩) ?_
  exact safeFor_single hvalue (by rintro _ ⟨⟩) ⟨Nat.zero_le _, by rintro _ ⟨⟩⟩ rfl
    (safeFor_leave hleave)

end Code

variable {code : Code} {loop : Option Loop}

/-- The instructions of an expression suit any addresses in the code. -/
theorem Expr.suits_emit {e : Expr Int64} {start : Nat}
    (h : start + e.codeSize ≤ code.instrs.length) :
    Instr.AllFrom code.Suits start (e.emit start) := by
  refine Instr.allFrom_of_forall fun instr hinstr _ => ?_
  obtain ⟨hoperation, hbounded⟩ := e.computes_emit h instr hinstr
  exact Code.suits_ordinary (Instr.isOrdinary_of_isOperation hoperation) hbounded

/-- A loop is one of a code: neither its head nor its exit is past the end. -/
def Loop.Within (loop : Loop) (code : Code) : Prop :=
  loop.head ≤ code.instrs.length ∧ loop.exit ≤ code.instrs.length

mutual

/-- Every instruction of a statement suits its address in a code that the statement lies within, if
    the code is that of a function where the surroundings say so, and the loop around is in it. -/
theorem Stmt.suits_emit : ∀ (stmt : Stmt Int64) {code : Code} {around : Surroundings}
    {loop : Option Loop} {start : Nat}, Legal around [stmt] →
    (around.inFunction = true → code.isModule = false) → (∀ l, loop = some l → l.Within code) →
    code.Holds start (stmt.emit loop start) →
    start + stmt.codeSize (loop.map Loop.kind) ≤ code.instrs.length →
    Instr.AllFrom code.Suits start (stmt.emit loop start)
  | .expr _ value, _, _, _, _, _, _, _, _, hsize
  | .assign _ _ value, _, _, _, _, _, _, _, _, hsize => by
    simp only [Stmt.codeSize] at hsize
    simp only [Stmt.emit, Instr.allFrom_append, Instr.allFrom_cons, Instr.allFrom_nil]
    exact ⟨Expr.suits_emit (by omega), Code.suits_ordinary rfl nofun, trivial⟩
  | .assignItem _ _ index value, _, _, _, _, _, _, _, _, hsize => by
    simp only [Stmt.codeSize] at hsize
    simp only [Stmt.emit, Instr.allFrom_append, Instr.allFrom_cons, Instr.allFrom_nil,
      Expr.length_emit]
    exact ⟨⟨Expr.suits_emit (by omega), Expr.suits_emit (by omega)⟩,
      Code.suits_ordinary rfl nofun, trivial⟩
  | .branch line test body otherwise, code, around, loop, start, hlegal, hmodule, hloop, hcode,
      hsize => by
    -- The test leads to what follows when it fails, and the body ends with a jump over that.
    obtain ⟨next, finish, harm, hfinish, hend⟩ := hcode.branch
    have hbody := harm.holdsBody
    have hotherwise := harm.holdsOtherwise
    obtain rfl := harm.next_eq
    obtain rfl := hfinish
    simp only [Stmt.emit, Instr.allFrom_append, Instr.allFrom_cons, List.length_append,
      List.length_cons, Expr.length_emit, Stmt.length_emitAll, ← Nat.add_assoc]
    rw [Nat.add_right_comm (start + test.codeSize) _ 1]
    simp only [Stmt.codeSize] at hsize
    exact ⟨⟨Expr.suits_emit (by omega), Code.suits_jumpIfFalse (by omega),
      Stmt.suits_emitAll body hlegal.branch_body hmodule hloop hbody (by omega)⟩,
      Code.suits_jump (by omega),
      Otherwise.suits_emit otherwise hlegal.branch_otherwise hmodule hloop hotherwise (by omega)
        (by omega)⟩
  | .whileLoop line test body, code, around, loop, start, hlegal, hmodule, _, hcode, hsize => by
    -- The body is in a loop whose head and exit are those of the statement.
    obtain ⟨exit, -, hwhile, -⟩ := hcode.whileLoop
    have hbody := hwhile.holdsBody
    obtain rfl := hwhile.exit_eq
    simp only [Stmt.emit, List.cons_append, Instr.allFrom_append, Instr.allFrom_cons,
      Instr.allFrom_nil, List.length_append, List.length_cons, Expr.length_emit,
      Stmt.length_emitAll, Option.map_some, and_true, ← Nat.add_assoc]
    simp only [Stmt.codeSize] at hsize
    refine ⟨Code.suits_jump (by omega), Code.suits_ordinary rfl nofun,
      ⟨Expr.suits_emit (by omega), Code.suits_jumpIfFalse (by omega),
        Stmt.suits_emitAll body hlegal.while_body hmodule ?_ hbody
          (by simp only [Option.map_some]; omega)⟩,
      Code.suits_jump (by omega)⟩
    rintro l ⟨⟩
    exact ⟨by dsimp only; omega, by dsimp only; omega⟩
  | .forLoop line var iterable body, code, around, loop, start, hlegal, hmodule, _, hcode,
      hsize => by
    obtain ⟨head, exit, -, hstart, hjump, rfl, hfor, -⟩ := hcode.forLoop
    have hbody := hfor.holdsBody
    -- What opens the loop and what takes its items need the whole of it to be in its place.
    have hat := hfor.loopAt hstart hjump
    obtain rfl := hfor.exit_eq
    simp only [Stmt.emit, Instr.allFrom_append, Instr.allFrom_cons, Instr.allFrom_nil,
      List.length_append, List.length_cons, Expr.length_emit, Stmt.length_emitAll,
      Option.map_some, and_true, ← Nat.add_assoc]
    simp only [Stmt.codeSize] at hsize
    refine ⟨⟨Expr.suits_emit (by omega), ⟨nofun, nofun, fun _ => ⟨_, hat⟩, nofun, nofun⟩,
      Code.suits_jump (by omega), Code.suits_ordinary rfl nofun,
      Code.suits_iterNext (by omega) rfl rfl hat, Code.suits_ordinary rfl nofun,
      Stmt.suits_emitAll body hlegal.for_body hmodule ?_ hbody
        (by simp only [Option.map_some]; omega)⟩, Code.suits_jump (by omega)⟩
    rintro l ⟨⟩
    exact ⟨by dsimp only; omega, by dsimp only; omega⟩
  | .define line name params body ident, _, _, _, _, hlegal, _, _, _, _ => by
    let inner : Code :=
      ⟨name, params, Stmt.emitAll none line 0 body ++ [.const .none, .leave], line, ident⟩
    -- The body stands in a code of its own, which is no script: no function bears the name of one.
    have hmodule : inner.isModule = false := decide_eq_false hlegal.define_name
    have hinner : inner.Sound := by
      have hcode : inner.Holds 0 (_ ++ _) := inner.holds_instrs
      refine Code.sound_of_allFrom (Code.safe_function rfl) ?_
      simp only [inner, Code.holds_append, Instr.allFrom_append] at hcode ⊢
      refine ⟨Stmt.suits_emitAll body hlegal.define_body (fun _ => hmodule) nofun hcode.1 ?_,
        Code.suits_ordinary rfl nofun, Code.suits_leave hmodule, trivial⟩
      simp
    exact ⟨⟨nofun, nofun, nofun, nofun, fun _ h => by cases h; exact ⟨hmodule, hinner⟩⟩,
      Code.suits_ordinary rfl nofun, trivial⟩
  | .leave _ none, _, _, _, _, hlegal, hmodule, _, _, _ =>
    ⟨Code.suits_ordinary rfl nofun, Code.suits_leave (hmodule hlegal.leave), trivial⟩
  | .leave _ (some value), _, _, _, _, hlegal, hmodule, _, _, hsize => by
    simp only [Stmt.codeSize, returned, Option.getD_some] at hsize
    simp only [Stmt.emit, Instr.allFrom_append, Instr.allFrom_cons, Instr.allFrom_nil]
    exact ⟨Expr.suits_emit (by omega), Code.suits_leave (hmodule hlegal.leave), trivial⟩
  | .breakLoop _, _, _, none, _, _, _, _, _, _ | .continueLoop _, _, _, none, _, _, _, _, _, _
  | .pass _, _, _, _, _, _, _, _, _, _ => trivial
  | .breakLoop _, _, _, some ⟨.testing, _, _⟩, _, _, _, hloop, _, _ =>
    ⟨Code.suits_jump (hloop _ rfl).2, trivial⟩
  | .breakLoop _, _, _, some ⟨.iterating, _, _⟩, _, _, _, hloop, _, _ =>
    ⟨Code.suits_ordinary rfl nofun, Code.suits_jump (hloop _ rfl).2, trivial⟩
  | .continueLoop _, _, _, some _, _, _, _, hloop, _, _ =>
    ⟨Code.suits_jump (hloop _ rfl).1, trivial⟩

/-- Every instruction of what a conditional goes on with suits its address, if the conditional ends
    within the code. -/
theorem Otherwise.suits_emit : ∀ (otherwise : Otherwise Int64) {code : Code}
    {around : Surroundings} {loop : Option Loop} {finish start : Nat},
    Legal around otherwise.toStmts → (around.inFunction = true → code.isModule = false) →
    (∀ l, loop = some l → l.Within code) →
    code.Holds start (otherwise.emit loop finish start) →
    start + otherwise.codeSize (loop.map Loop.kind) ≤ code.instrs.length →
    finish ≤ code.instrs.length →
    Instr.AllFrom code.Suits start (otherwise.emit loop finish start)
  | .nothing, _, _, _, _, _, _, _, _, _, _, _ => trivial
  | .body body, _, _, _, _, _, hlegal, hmodule, hloop, hcode, hsize, _ =>
    Stmt.suits_emitAll body hlegal hmodule hloop hcode hsize
  | .arm line test body otherwise, code, around, loop, finish, start, hlegal, hmodule, hloop,
      hcode, hsize, hfinish => by
    obtain ⟨next, -, harm, -⟩ := hcode.arm
    have hbody := harm.holdsBody
    have hotherwise := harm.holdsOtherwise
    obtain rfl := harm.next_eq
    simp only [Otherwise.emit, List.cons_append, Instr.allFrom_append, Instr.allFrom_cons,
      List.length_append, List.length_cons, Expr.length_emit, Stmt.length_emitAll, ← Nat.add_assoc]
    -- The jump to the end stands behind the body, and the next arm behind that jump.
    rw [Nat.add_right_comm (start + 1 + test.codeSize) _ 1]
    simp only [Otherwise.codeSize] at hsize
    exact ⟨Code.suits_ordinary rfl nofun,
      ⟨Expr.suits_emit (by omega), Code.suits_jumpIfFalse (by omega),
        Stmt.suits_emitAll body hlegal.branch_body hmodule hloop hbody (by omega)⟩,
      Code.suits_jump hfinish,
      Otherwise.suits_emit otherwise hlegal.branch_otherwise hmodule hloop hotherwise (by omega)
        hfinish⟩

/-- Every instruction of some statements suits its address, as it does for each of them. -/
theorem Stmt.suits_emitAll : ∀ (stmts : List (Stmt Int64)) {code : Code} {around : Surroundings}
    {loop : Option Loop} {before : Line} {start : Nat}, Legal around stmts →
    (around.inFunction = true → code.isModule = false) → (∀ l, loop = some l → l.Within code) →
    code.Holds start (Stmt.emitAll loop before start stmts) →
    start + Stmt.codeSizeOf (loop.map Loop.kind) before stmts ≤ code.instrs.length →
    Instr.AllFrom code.Suits start (Stmt.emitAll loop before start stmts)
  | [], _, _, _, _, _, _, _, _, _, _ => trivial
  | stmt :: rest, code, around, loop, before, start, hlegal, hmodule, hloop, hcode, hsize => by
    simp only [Stmt.emitAll, Code.holds_append, Instr.allFrom_append, List.length_append,
      length_emitLine, Stmt.length_emit, ← Nat.add_assoc] at hcode ⊢
    obtain ⟨⟨-, hstmt⟩, hrest⟩ := hcode
    simp only [Stmt.codeSizeOf] at hsize
    refine ⟨⟨?_, Stmt.suits_emit stmt hlegal.head hmodule hloop hstmt (by omega)⟩,
      Stmt.suits_emitAll rest hlegal.tail hmodule hloop hrest (by omega)⟩
    -- A `line` instruction suits any address.
    rw [emitLine]
    split
    · trivial
    · exact ⟨Code.suits_ordinary rfl nofun, trivial⟩

end

/-- The code of a legal program is sound. -/
theorem Program.sound_emit {program : Program} (h : Legal .outermost program) :
    program.emit.Sound := by
  have hcode := program.emit.holds_instrs
  have hlength : program.emit.instrs.length = Stmt.codeSizeOf none 0 program :=
    Stmt.length_emitAll none 0 0 program
  refine Code.sound_of_allFrom (fun n => ?_) ?_
  · refine Stmt.safeFor_emitAll program hcode program.emit.surrounds_instrs nofun ?_
    rw [Nat.zero_add]
    exact Code.safeFor_end rfl (Nat.le_of_eq hlength)
  · refine Stmt.suits_emitAll program h nofun nofun hcode ?_
    rw [Nat.zero_add]
    exact Nat.le_of_eq hlength.symm

/-! ## All codes of a program -/

/-- A code is another one, or that of a function that is made in it at any depth. -/
inductive Code.Includes (code : Code) : Code → Prop
  | self : code.Includes code
  | made {outer inner : Code} (h : code.Includes outer)
      (hinner : .makeFunction inner ∈ outer.instrs) : code.Includes inner

/-- The codes of all functions in a sound code are sound. -/
theorem Code.Includes.sound {inner : Code} (h : code.Includes inner) (hcode : code.Sound) :
    inner.Sound := by
  induction h with
  | self => exact hcode
  | made _ hinner ih =>
    obtain ⟨-, -, -, -, -, -, hmake⟩ := ih
    exact hmake hinner

end Linewise
