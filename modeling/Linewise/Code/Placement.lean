import Linewise.Fault
import Linewise.Syntax.Tree

/-!
# Misplaced statements

A `return` belongs into a function, and a `break` or `continue` into a loop of the same function.
A script that holds one elsewhere is refused, with the line of the first such statement in the
order of the text.
-/

namespace Linewise

/-- What encloses a statement, up to the next definition. -/
structure Surroundings where
  inFunction : Bool
  inLoop : Bool
  deriving DecidableEq

namespace Surroundings

/-- Nothing encloses the statements of a script. -/
def outermost : Surroundings := ⟨false, false⟩

/-- A definition encloses the statements of its body, whatever encloses the definition. -/
def function : Surroundings := ⟨true, false⟩

/-- The surroundings inside of a loop. -/
def loop (around : Surroundings) : Surroundings := { around with inLoop := true }

end Surroundings

/-- The refusal of a misplaced statement. -/
def Misplaced.fault (jump : Misplaced) (line : Line) : Fault :=
  .onLine (.refused (.misplaced jump)) line

mutual

/-- The fault of the first misplaced statement in a statement. -/
def Stmt.misplaced? {ι : Type} (around : Surroundings) : Stmt ι → Option Fault
  | .leave line _ =>
    if around.inFunction then none else some (Misplaced.returnOutside.fault line)
  | .breakLoop line => if around.inLoop then none else some (Misplaced.breakOutside.fault line)
  | .continueLoop line =>
    if around.inLoop then none else some (Misplaced.continueOutside.fault line)
  | .branch _ _ body otherwise =>
    (Stmt.misplacedIn? around body).or (otherwise.misplaced? around)
  | .whileLoop _ _ body => Stmt.misplacedIn? around.loop body
  | .forLoop _ _ _ body => Stmt.misplacedIn? around.loop body
  | .define _ _ _ body _ => Stmt.misplacedIn? .function body
  | .expr .. | .assign .. | .assignItem .. | .pass _ => none

/-- The fault of the first misplaced statement in the arms of a conditional. -/
def Otherwise.misplaced? {ι : Type} (around : Surroundings) : Otherwise ι → Option Fault
  | .nothing => none
  | .body body => Stmt.misplacedIn? around body
  | .arm _ _ body otherwise =>
    (Stmt.misplacedIn? around body).or (otherwise.misplaced? around)

/-- The fault of the first misplaced statement in a body. -/
def Stmt.misplacedIn? {ι : Type} (around : Surroundings) : List (Stmt ι) → Option Fault
  | [] => none
  | stmt :: rest => (stmt.misplaced? around).or (Stmt.misplacedIn? around rest)

end

end Linewise
