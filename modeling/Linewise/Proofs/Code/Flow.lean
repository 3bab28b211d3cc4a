import Linewise.Proofs.Code.Guarded

/-!
# The flow of a code

What an instruction does to the operand stack and to the open loops of its frame follows from the
instruction alone, as long as only their numbers count. So how many there are at an address can be
told without running anything (`Place`).

* `Instr.exits` are the places that an instruction may lead to, and `Instr.Fed` says that it finds
  what it takes;
* a place is safe (`Code.Safe`) when a code can run on from there for ever: every instruction is
  fed, every `line` instruction finds no operands and as many open loops as are around it
  (`Code.Marked`), and only a script comes to the end of its instructions.

A code may run in circles, so safety is the limit of safety for a number of instructions
(`Code.SafeFor`).
-/

namespace Linewise

/-- A place that the execution of a code can be at: the number of the next instruction, and the
    numbers of operands and of open loops. -/
structure Place where
  next : Nat
  height : Nat
  depth : Nat

namespace Instr

/-- The number of operands that an instruction takes from the stack. -/
def pops : Instr → Nat
  | .line _ | .const _ | .load _ | .jump _ | .makeFunction _ | .iterNext _ | .iterDrop => 0
  | .store _ | .unary _ | .jumpIfFalse _ | .jumpIfFalseOrPop _ | .jumpIfTrueOrPop _ | .leave | .pop
  | .iterStart => 1
  | .storeIndex _ | .index | .binary _ => 2
  | .buildList count => count
  | .call argc => argc + 1

/-- The places that an instruction may lead to within its code, from one that has moved on past
    it. -/
def exits : Instr → Place → List Place
  | .line _, p => [p]
  | .const _, p | .load _, p | .makeFunction _, p => [{ p with height := p.height + 1 }]
  | .store _, p | .pop, p => [{ p with height := p.height - 1 }]
  | .storeIndex _, p => [{ p with height := p.height - 2 }]
  | .buildList count, p => [{ p with height := p.height - count + 1 }]
  | .index, p | .binary _, p => [{ p with height := p.height - 2 + 1 }]
  | .unary _, p => [{ p with height := p.height - 1 + 1 }]
  | .call argc, p => [{ p with height := p.height - (argc + 1) + 1 }]
  | .jump target, p => [{ p with next := target }]
  | .jumpIfFalse target, p =>
    [{ p with height := p.height - 1 }, { p with next := target, height := p.height - 1 }]
  | .jumpIfFalseOrPop target, p | .jumpIfTrueOrPop target, p =>
    [{ p with height := p.height - 1 }, { p with next := target }]
  | .leave, _ => []
  | .iterStart, p => [{ p with height := p.height - 1, depth := p.depth + 1 }]
  | .iterNext target, p =>
    [{ p with height := p.height + 1 }, { p with next := target, depth := p.depth - 1 }]
  | .iterDrop, p => [{ p with depth := p.depth - 1 }]

/-- An instruction finds the operands and the open loop that it needs. -/
structure Fed (instr : Instr) (p : Place) : Prop where
  pops_le : instr.pops ≤ p.height
  depth_pos : ∀ target, instr = .iterNext target → 0 < p.depth

/-- An instruction goes on at the next one or at one of its targets. -/
theorem next_of_mem_exits {instr : Instr} {p q : Place} (h : q ∈ instr.exits p) :
    q.next = p.next ∨ q.next ∈ instr.targets := by
  cases instr with
  | jump target => exact .inr (by simp_all [exits, targets])
  | jumpIfFalse target | jumpIfFalseOrPop target | jumpIfTrueOrPop target | iterNext target =>
    rcases List.mem_cons.1 h with rfl | h
    · exact .inl rfl
    · exact .inr (by simp_all [targets])
  | leave => cases h
  | _ => exact .inl (by rw [List.mem_singleton.1 h])

/-- The addresses that execution may go on at in the same frame, after the instruction at `i`. -/
def successors (i : Nat) : Instr → List Nat
  | .jump target => [target]
  | instr => (i + 1) :: instr.targets

/-- The line that a frame on a given line is on after an instruction. -/
def lineAfter (line : Line) : Instr → Line
  | .line reached => reached
  | _ => line

/-- The instruction can fail. -/
def mayFail : Instr → Bool
  | .line _ | .const _ | .jump _ | .makeFunction _ | .iterDrop => false
  | _ => true

/-- Only an instruction that may fail takes something from the stack. -/
theorem mayFail_of_pops {instr : Instr} {height : Nat} (h : height < instr.pops) :
    instr.mayFail = true := by
  cases instr <;> first | rfl | exact absurd h (Nat.not_lt_zero _)

/-- An instruction goes on at one of its successors. -/
theorem next_mem_successors {instr : Instr} {p q : Place} {i : Nat} (hp : p.next = i + 1)
    (h : q ∈ instr.exits p) : q.next ∈ instr.successors i := by
  cases instr with
  | jump target => simp_all [exits, successors]
  | _ => exact List.mem_cons.2 (hp ▸ next_of_mem_exits h)

/-- An instruction that can fail may go on at the next one. -/
theorem succ_mem_successors {instr : Instr} {i : Nat} (h : instr.mayFail = true) :
    i + 1 ∈ instr.successors i := by
  cases instr with
  | jump target => cases h
  | _ => exact List.mem_cons_self

/-- An instruction that can fail leaves its frame on the line that it is on. -/
theorem lineAfter_of_mayFail {instr : Instr} {line : Line} (h : instr.mayFail = true) :
    instr.lineAfter line = line := by
  cases instr with
  | line reached => cases h
  | _ => rfl

/-! ## Loops around an address -/

/-- The instruction is the `iterNext` at the address `j` of a loop over items whose code has the
    address `i` in it. This code begins with the `line` instruction before the `iterNext` and ends
    with the jump before the exit. -/
def loopsOver (i j : Nat) : Instr → Bool
  | .iterNext exit => j ≤ i + 1 && i < exit
  | _ => false

/-- The number of the loops over items with an address in their code, among those that some
    instructions from `start` on stand for. -/
def loopsAround (i start : Nat) (instrs : List Instr) : Nat :=
  (instrs.zipIdx start).countP fun site => site.1.loopsOver i site.2

variable {i start lo hi : Nat} {instr : Instr} {instrs instrs' : List Instr}

@[simp]
theorem loopsAround_nil : loopsAround i start [] = 0 := rfl

@[simp]
theorem loopsAround_cons :
    loopsAround i start (instr :: instrs) =
      loopsAround i (start + 1) instrs + if instr.loopsOver i start then 1 else 0 := by
  rw [loopsAround, List.zipIdx_cons, List.countP_cons, loopsAround]

@[simp]
theorem loopsAround_append :
    loopsAround i start (instrs ++ instrs') =
      loopsAround i start instrs + loopsAround i (start + instrs.length) instrs' := by
  rw [loopsAround, List.zipIdx_append, List.countP_append, loopsAround, loopsAround]

/-- The code of a loop over items, if the instruction stands for one, lies within bounds. -/
def Local (lo hi i : Nat) (instr : Instr) : Prop :=
  ∀ exit, instr = .iterNext exit → lo < i ∧ exit ≤ hi

/-- No loop is around an address outside of the bounds of all loops. -/
theorem loopsAround_eq_zero (h : AllFrom (Local lo hi) start instrs) (hi : i < lo ∨ hi ≤ i) :
    loopsAround i start instrs = 0 := by
  induction instrs generalizing start with
  | nil => rfl
  | cons instr rest ih =>
    obtain ⟨hinstr, hrest⟩ := h
    rw [loopsAround_cons, ih hrest, if_neg]
    cases instr with
    | iterNext exit =>
      have := hinstr exit rfl
      simp only [loopsOver, Bool.and_eq_true, decide_eq_true_eq]
      omega
    | _ => exact Bool.false_ne_true

end Instr

namespace Code

/-- The number of the loops over items of a code whose code has an address in it. -/
def loopsAround (code : Code) (i : Nat) : Nat := Instr.loopsAround i 0 code.instrs

/-- If the next instruction is a `line`, then there are no operands, and the open loops are those
    around it. -/
def Marked (code : Code) (p : Place) : Prop :=
  ∀ line, code.instrs[p.next]? = some (.line line) →
    p.height = 0 ∧ p.depth = code.loopsAround p.next

/-- From a place on, a code runs for `n` instructions as it should. -/
def SafeFor (code : Code) : (n : Nat) → Place → Prop
  | 0, _ => True
  | n + 1, p => code.Marked p ∧
    match code.instrs[p.next]? with
    | some instr => instr.Fed p ∧ ∀ q ∈ instr.exits { p with next := p.next + 1 }, code.SafeFor n q
    | none => code.isModule = true ∧ p.height = 0 ∧ p.depth = 0

/-- From a place on, a code runs as it should. -/
def Safe (code : Code) (p : Place) : Prop := ∀ n, code.SafeFor n p

variable {code : Code} {m n i target height depth : Nat} {line : Line} {instr : Instr} {p q : Place}

/-- What is safe for some instructions is so for fewer. -/
theorem SafeFor.mono (h : code.SafeFor n p) (hle : m ≤ n) : code.SafeFor m p := by
  induction n generalizing m p with
  | zero => rwa [Nat.le_zero.1 hle]
  | succ n ih =>
    cases m with
    | zero => trivial
    | succ m =>
      rw [SafeFor] at h ⊢
      refine ⟨h.1, ?_⟩
      have hnext := h.2
      split at hnext
      · exact ⟨hnext.1, fun q hq => ih (hnext.2 q hq) (Nat.le_of_succ_le_succ hle)⟩
      · exact hnext

/-! ## How a code comes to be safe -/

/-- A place is safe for one instruction more than those after its instruction. -/
theorem safeFor_succ (hinstr : code.instrs[p.next]? = some instr) (hmarked : code.Marked p)
    (hfed : instr.Fed p) (h : ∀ q ∈ instr.exits { p with next := p.next + 1 }, code.SafeFor n q) :
    code.SafeFor (n + 1) p := by
  rw [SafeFor, hinstr]
  exact ⟨hmarked, hfed, h⟩

theorem safeFor_of_exits (hinstr : code.instrs[p.next]? = some instr) (hmarked : code.Marked p)
    (hfed : instr.Fed p) (h : ∀ q ∈ instr.exits { p with next := p.next + 1 }, code.SafeFor n q) :
    code.SafeFor n p :=
  (safeFor_succ hinstr hmarked hfed h).mono (Nat.le_succ n)

/-- What holds of a place where there is no `line` instruction. -/
theorem marked_of_ne (hinstr : code.instrs[p.next]? = some instr)
    (hline : ∀ line, instr ≠ .line line) : code.Marked p :=
  fun line h => absurd (Option.some.inj (hinstr.symm.trans h)) (hline line)

/-- A `line` instruction is safe where it should be. -/
theorem safeFor_line (hinstr : code.instrs[i]? = some (.line line))
    (hdepth : code.loopsAround i = depth) (h : code.SafeFor n ⟨i + 1, 0, depth⟩) :
    code.SafeFor n ⟨i, 0, depth⟩ := by
  refine safeFor_of_exits hinstr (fun _ _ => ⟨rfl, hdepth.symm⟩) ⟨Nat.le_refl 0, nofun⟩ ?_
  exact fun q hq => List.mem_singleton.1 hq ▸ h

/-- A jump is safe where its target is. -/
theorem safeFor_jump (hinstr : code.instrs[i]? = some (.jump target))
    (h : code.SafeFor n ⟨target, height, depth⟩) : code.SafeFor n ⟨i, height, depth⟩ := by
  refine safeFor_of_exits hinstr (marked_of_ne hinstr nofun) ⟨Nat.zero_le _, nofun⟩ ?_
  exact fun q hq => List.mem_singleton.1 hq ▸ h

/-- A jump back is safe for one instruction more than its target. -/
theorem safeFor_jump_back (hinstr : code.instrs[i]? = some (.jump target))
    (h : ∀ m < n, code.SafeFor m ⟨target, height, depth⟩) : code.SafeFor n ⟨i, height, depth⟩ := by
  cases n with
  | zero => trivial
  | succ n =>
    refine safeFor_succ hinstr (marked_of_ne hinstr nofun) ⟨Nat.zero_le _, nofun⟩ ?_
    exact fun q hq => List.mem_singleton.1 hq ▸ h n (Nat.lt_succ_self n)

/-- The head of a loop is safe when one round is, for as many instructions as the head has been
    shown to be safe for before. -/
theorem safeFor_head (hinstr : code.instrs[i]? = some (.line line))
    (hdepth : code.loopsAround i = depth)
    (hround : ∀ m ≤ n, (∀ k < m, code.SafeFor k ⟨i, 0, depth⟩) →
      code.SafeFor m ⟨i + 1, 0, depth⟩) :
    ∀ m ≤ n, code.SafeFor m ⟨i, 0, depth⟩ := by
  intro m
  induction m using Nat.strongRecOn with
  | ind m ih =>
    intro hm
    refine safeFor_line hinstr hdepth (hround m hm fun k hk => ih k hk ?_)
    exact Nat.le_trans (Nat.le_of_lt hk) hm

/-! ## What a safe place is good for -/

/-- At a safe place with an instruction, that is fed and leads to safe places. -/
theorem Safe.exits (h : code.Safe p) (hinstr : code.instrs[p.next]? = some instr) :
    instr.Fed p ∧ ∀ q ∈ instr.exits { p with next := p.next + 1 }, code.Safe q := by
  refine ⟨?_, fun q hq n => ?_⟩
  · have := h 1
    rw [SafeFor, hinstr] at this
    exact this.2.1
  · have := h (n + 1)
    rw [SafeFor, hinstr] at this
    exact this.2.2 q hq

theorem Safe.marked (h : code.Safe p) : code.Marked p := (h 1).1

/-- A safe place after the last instruction is the end of a script, with nothing left over. -/
theorem Safe.finished (h : code.Safe p) (hinstr : code.instrs[p.next]? = none) :
    code.isModule = true ∧ p.height = 0 ∧ p.depth = 0 := by
  have := h 1
  rw [SafeFor, hinstr] at this
  exact this.2

end Code

end Linewise
