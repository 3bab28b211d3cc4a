import Linewise.Code.Basic
import Linewise.Code.Placement
import Linewise.Syntax.Tree

/-!
# Legal programs

What can be relied on in the tree of a program that was read from a text and compiled:

* it is legal (`Legal`): no statement is misplaced (`Stmt.misplacedIn?`), and no definition has the
  name that stands for the script itself (`Stmt.namesOf`);
* its lines ascend (`Ascending`): they do not descend in the order of the text, over all statements
  and arms (`Stmt.linesOf`), and none is zero. This takes a text whose lines can all be numbered.

The lines and the names are both what can be noted of a tree from its beginning to its end
(`Stmt.marks`).

All of this holds in every part of a body too, which is what the lemmas here are about. The arms of
a conditional are legal as the statement is that they would be on their own (`Otherwise.toStmts`).
-/

namespace Linewise

variable {ι : Type}

section Marks

variable {β : Type} (ofLine : Line → List β) (ofName : String → List β)

mutual

/-- What is noted of the lines of a statement and of all statements and arms in it, and of the
    names of all definitions in it, in the order of the text. -/
def Stmt.marks : Stmt ι → List β
  | .branch line _ body otherwise => ofLine line ++ (Stmt.marksOf body ++ otherwise.marks)
  | .whileLoop line _ body | .forLoop line _ _ body => ofLine line ++ Stmt.marksOf body
  | .define line name _ body _ => ofLine line ++ (ofName name ++ Stmt.marksOf body)
  | .expr line _ | .assign line _ _ | .assignItem line _ _ _ | .leave line _ | .breakLoop line
  | .continueLoop line | .pass line => ofLine line

/-- What is noted of all that a conditional may go on with. -/
def Otherwise.marks : Otherwise ι → List β
  | .nothing => []
  | .body body => Stmt.marksOf body
  | .arm line _ body otherwise => ofLine line ++ (Stmt.marksOf body ++ otherwise.marks)

/-- What is noted of some statements, one after the other. -/
def Stmt.marksOf : List (Stmt ι) → List β
  | [] => []
  | stmt :: rest => stmt.marks ++ Stmt.marksOf rest

end

end Marks

/-- The lines of a statement and of all statements and arms in it. -/
abbrev Stmt.lines (stmt : Stmt ι) : List Line := stmt.marks (fun line => [line]) fun _ => []

/-- The lines of all statements and arms that a conditional may go on with. -/
abbrev Otherwise.lines (otherwise : Otherwise ι) : List Line :=
  otherwise.marks (fun line => [line]) fun _ => []

/-- The lines of statements and of all statements and arms in them. -/
abbrev Stmt.linesOf (stmts : List (Stmt ι)) : List Line :=
  Stmt.marksOf (fun line => [line]) (fun _ => []) stmts

/-- The names of all definitions in some statements. -/
abbrev Stmt.namesOf (stmts : List (Stmt ι)) : List String :=
  Stmt.marksOf (fun _ => []) (fun name => [name]) stmts

/-- The statements that a conditional goes on with after a test that failed. -/
def Otherwise.toStmts : Otherwise ι → List (Stmt ι)
  | .nothing => []
  | .body stmts => stmts
  | .arm line test stmts otherwise => [.branch line test stmts otherwise]

theorem Otherwise.marksOf_toStmts {β : Type} (ofLine : Line → List β)
    (ofName : String → List β) (otherwise : Otherwise ι) :
    Stmt.marksOf ofLine ofName otherwise.toStmts = otherwise.marks ofLine ofName := by
  cases otherwise <;> simp [toStmts, Stmt.marksOf, Stmt.marks, marks]

/-- The line that a statement starts on is the first one in it. -/
theorem Stmt.line_mem_lines (stmt : Stmt ι) : stmt.line ∈ stmt.lines := by
  cases stmt <;> simp [line, marks]

/-- The line that the first statement starts on is one of the lines of the statements. -/
theorem Stmt.line_mem_linesOf {stmts : List (Stmt ι)} {first : Stmt ι} (h : first ∈ stmts.head?) :
    first.line ∈ Stmt.linesOf stmts := by
  cases stmts with
  | nil => cases h
  | cons stmt rest =>
    obtain rfl : stmt = first := Option.some.inj h
    exact List.mem_append_left _ stmt.line_mem_lines

/-! ## Legal bodies -/

section

variable {around around' : Surroundings} {line : Line} {test : Expr ι}
  {body inner rest : List (Stmt ι)} {stmt : Stmt ι} {otherwise : Otherwise ι}

/-- The body is legal inside of what is around it. -/
structure Legal (around : Surroundings) (body : List (Stmt ι)) : Prop where
  placed : Stmt.misplacedIn? around body = none
  named : ∀ name ∈ Stmt.namesOf body, name ≠ Code.moduleName

namespace Legal

/-- A part of a legal body is legal where nothing in it is misplaced. -/
theorem part (h : Legal around body) (hp : Stmt.misplacedIn? around' inner = none)
    (hn : Stmt.namesOf inner ⊆ Stmt.namesOf body) : Legal around' inner where
  placed := hp
  named name hname := h.named name (hn hname)

theorem placed_cons (h : Legal around (stmt :: rest)) :
    stmt.misplaced? around = none ∧ Stmt.misplacedIn? around rest = none := by
  simpa [Stmt.misplacedIn?] using h.placed

theorem placed_singleton (h : Legal around [stmt]) : stmt.misplaced? around = none :=
  h.placed_cons.1

theorem head (h : Legal around (stmt :: rest)) : Legal around [stmt] :=
  h.part (by simp [Stmt.misplacedIn?, h.placed_cons.1]) (by simp [Stmt.marksOf])

theorem tail (h : Legal around (stmt :: rest)) : Legal around rest :=
  h.part h.placed_cons.2 (List.subset_append_right _ _)

theorem branch_body (h : Legal around [.branch line test body otherwise]) : Legal around body := by
  have hp := h.placed_singleton
  simp only [Stmt.misplaced?, Option.or_eq_none_iff] at hp
  exact h.part hp.1 (by simp [Stmt.marksOf, Stmt.marks])

/-- What a legal conditional goes on with is legal where the conditional is. -/
theorem branch_otherwise (h : Legal around [.branch line test body otherwise]) :
    Legal around otherwise.toStmts := by
  have hp := h.placed_singleton
  simp only [Stmt.misplaced?, Option.or_eq_none_iff] at hp
  have hplaced : Stmt.misplacedIn? around otherwise.toStmts = otherwise.misplaced? around := by
    cases otherwise <;>
      simp [Otherwise.toStmts, Stmt.misplacedIn?, Stmt.misplaced?, Otherwise.misplaced?]
  refine h.part (hplaced.trans hp.2) ?_
  rw [Stmt.namesOf, Otherwise.marksOf_toStmts]
  simp [Stmt.marksOf, Stmt.marks]

theorem while_body (h : Legal around [.whileLoop line test body]) : Legal around.loop body :=
  h.part h.placed_singleton (by simp [Stmt.marksOf, Stmt.marks])

theorem for_body {var : String} (h : Legal around [.forLoop line var test body]) :
    Legal around.loop body :=
  h.part h.placed_singleton (by simp [Stmt.marksOf, Stmt.marks])

theorem define_body {name : String} {params : List String} {ident : Nat}
    (h : Legal around [.define line name params body ident]) : Legal .function body :=
  h.part h.placed_singleton (by simp [Stmt.marksOf, Stmt.marks])

theorem define_name {name : String} {params : List String} {ident : Nat}
    (h : Legal around [.define line name params body ident]) : name ≠ Code.moduleName :=
  h.named name (by simp [Stmt.marksOf, Stmt.marks])

theorem leave {value : Option (Expr ι)} (h : Legal around [.leave line value]) :
    around.inFunction = true := by
  simpa [Stmt.misplaced?] using h.placed_singleton

theorem breakLoop (h : Legal around [(.breakLoop line : Stmt ι)]) : around.inLoop = true := by
  simpa [Stmt.misplaced?] using h.placed_singleton

theorem continueLoop (h : Legal around [(.continueLoop line : Stmt ι)]) : around.inLoop = true := by
  simpa [Stmt.misplaced?] using h.placed_singleton

end Legal

/-! ## Bodies whose lines ascend -/

/-- The lines of the body do not descend in the order of the text, and none is zero. -/
structure Ascending (body : List (Stmt ι)) : Prop where
  pairwise : (Stmt.linesOf body).Pairwise (· ≤ ·)
  ne_zero : ∀ line ∈ Stmt.linesOf body, line ≠ 0

namespace Ascending

/-- The lines of a part ascend as those of the whole do. -/
theorem part (h : Ascending body) (hl : (Stmt.linesOf inner).Sublist (Stmt.linesOf body)) :
    Ascending inner where
  pairwise := h.pairwise.sublist hl
  ne_zero line hline := h.ne_zero line (hl.subset hline)

theorem head (h : Ascending (stmt :: rest)) : Ascending [stmt] :=
  h.part (by simp [Stmt.marksOf])

theorem tail (h : Ascending (stmt :: rest)) : Ascending rest :=
  h.part (List.sublist_append_right _ _)

/-- No line in a statement comes after one in the statements that follow. -/
theorem le_of_mem (h : Ascending (stmt :: rest)) {l l' : Line} (hl : l ∈ stmt.lines)
    (hl' : l' ∈ Stmt.linesOf rest) : l ≤ l' :=
  (List.pairwise_append.1 h.pairwise).2.2 l hl l' hl'

/-- A statement starts on its least line. -/
theorem line_le (h : Ascending [stmt]) {l : Line} (hl : l ∈ stmt.lines) : stmt.line ≤ l := by
  obtain ⟨rest, hrest⟩ : ∃ rest, stmt.lines = stmt.line :: rest := by
    cases stmt <;> exact ⟨_, rfl⟩
  have hp : (stmt.lines ++ []).Pairwise (· ≤ ·) := h.pairwise
  rw [List.append_nil, hrest, List.pairwise_cons] at hp
  rw [hrest, List.mem_cons] at hl
  rcases hl with rfl | hl
  · exact UInt32.le_refl _
  · exact hp.1 l hl

/-- From a line in a statement on, no other statement starts on the line of that statement, unless
    it is that line. -/
theorem eq_line_or (h : Ascending (stmt :: rest)) (hline : line ∈ stmt.lines) :
    line = stmt.line ∨ ∀ l ∈ Stmt.linesOf rest, l ≠ stmt.line := by
  by_cases heq : line = stmt.line
  · exact .inl heq
  · refine .inr fun l hl hl' => heq (UInt32.le_antisymm ?_ (h.head.line_le hline))
    exact hl' ▸ h.le_of_mem hline hl

theorem branch_body (h : Ascending [.branch line test body otherwise]) : Ascending body :=
  h.part (by simp [Stmt.marksOf, Stmt.marks])

theorem branch_otherwise (h : Ascending [.branch line test body otherwise]) :
    Ascending otherwise.toStmts := by
  refine h.part ?_
  rw [Stmt.linesOf, Otherwise.marksOf_toStmts]
  simp [Stmt.marksOf, Stmt.marks]

theorem while_body (h : Ascending [.whileLoop line test body]) : Ascending body :=
  h.part (by simp [Stmt.marksOf, Stmt.marks])

theorem for_body {var : String} (h : Ascending [.forLoop line var test body]) : Ascending body :=
  h.part (by simp [Stmt.marksOf, Stmt.marks])

theorem define_body {name : String} {params : List String} {ident : Nat}
    (h : Ascending [.define line name params body ident]) : Ascending body :=
  h.part (by simp [Stmt.marksOf, Stmt.marks])

end Ascending

end

end Linewise
