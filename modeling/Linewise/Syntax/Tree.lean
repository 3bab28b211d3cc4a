import Linewise.Syntax.Operator
import Linewise.Text

/-!
# Syntax trees

Every statement remembers the line it starts on, as does every later arm of a conditional: these
are the lines that a run stops at.

Trees are generic in what stands for an integer. A tree that has just been read holds the digits
of each (`Digits`), in a program they have become integers.
-/

namespace Linewise

/-- An expression, with integers from `ι`. -/
inductive Expr (ι : Type) where
  | int (n : ι)
  | float (x : Float)
  | str (s : String)
  | bool (b : Bool)
  | none
  | list (items : List (Expr ι))
  | ident (name : String)
  | subscript (object index : Expr ι)
  | call (callee : Expr ι) (args : List (Expr ι))
  | unary (op : UnaryOp) (operand : Expr ι)
  | binary (op : BinaryOp) (left right : Expr ι)
  | logic (op : LogicOp) (left right : Expr ι)

mutual

/-- A statement. -/
inductive Stmt (ι : Type) where
  | expr (line : Line) (value : Expr ι)
  | assign (line : Line) (name : String) (value : Expr ι)
  | assignItem (line : Line) (name : String) (index value : Expr ι)
  /-- A conditional: its first test and body, and what follows when the test fails. -/
  | branch (line : Line) (test : Expr ι) (body : List (Stmt ι)) (otherwise : Otherwise ι)
  | whileLoop (line : Line) (test : Expr ι) (body : List (Stmt ι))
  | forLoop (line : Line) (var : String) (iterable : Expr ι) (body : List (Stmt ι))
  /-- A function definition, with a number that no other definition of the script has. -/
  | define (line : Line) (name : String) (params : List String) (body : List (Stmt ι))
      (ident : Nat)
  | leave (line : Line) (value : Option (Expr ι))
  | breakLoop (line : Line)
  | continueLoop (line : Line)
  | pass (line : Line)

/-- What a conditional does when a test fails. -/
inductive Otherwise (ι : Type) where
  | nothing
  | body (body : List (Stmt ι))
  /-- One more arm, which starts on a line of its own. -/
  | arm (line : Line) (test : Expr ι) (body : List (Stmt ι)) (otherwise : Otherwise ι)

end

/-- The line that a statement starts on. -/
def Stmt.line {ι : Type} : Stmt ι → Line
  | expr line _ | assign line _ _ | assignItem line _ _ _ | branch line _ _ _ | whileLoop line _ _
  | forLoop line _ _ _ | define line _ _ _ _ | leave line _ | breakLoop line | continueLoop line
  | pass line => line

/-- The statements of a script, with integers of the language. -/
abbrev Program := List (Stmt Int64)

/-- The digits of an integer and the line they stand on. -/
structure Digits where
  text : String
  line : Line
  deriving DecidableEq

end Linewise
