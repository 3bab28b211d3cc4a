import Linewise.Syntax.Operator
import Linewise.Text
import Linewise.Value.Basic

/-!
# Code

A script runs as a straight list of instructions with absolute jump targets, one list for the
script itself and one for each function definition. Each works on an operand stack, a stack of
open loops and a set of bindings of its own.

A `line` instruction marks a boundary between statements: it is where a run can be suspended.
-/

namespace Linewise

mutual

/-- An instruction. -/
inductive Instr where
  /-- A statement of this line is about to run. -/
  | line (line : Line)
  /-- Push a constant. -/
  | const (value : Value Code)
  /-- Push the value of a name. -/
  | load (name : String)
  /-- Pop a value and bind a name to it. -/
  | store (name : String)
  /-- Pop a value and then a subscript, and replace an item of the list that a name is bound to. -/
  | storeIndex (name : String)
  /-- Pop some values and push the list of them. -/
  | buildList (count : Nat)
  /-- Pop a subscript and then an object, and push the item. -/
  | index
  | unary (op : UnaryOp)
  | binary (op : BinaryOp)
  | jump (target : Nat)
  /-- Pop a condition, and jump when it is false. -/
  | jumpIfFalse (target : Nat)
  /-- Jump when the topmost value is false, else pop it. -/
  | jumpIfFalseOrPop (target : Nat)
  /-- Jump when the topmost value is true, else pop it. -/
  | jumpIfTrueOrPop (target : Nat)
  /-- Pop some arguments and then what to call with them. -/
  | call (argc : Nat)
  /-- Pop a value and leave the frame with it. -/
  | leave
  | pop
  /-- Push a function. -/
  | makeFunction (code : Code)
  /-- Pop a list or a text and open a loop over it. -/
  | iterStart
  /-- Push the next item of the innermost loop, or close the loop and jump when none is left. -/
  | iterNext (target : Nat)
  /-- Close the innermost loop. -/
  | iterDrop

/-- The code of a script or of a function definition. -/
structure Code where
  name : String
  params : List String
  instrs : List Instr
  /-- The line of the definition; zero for a script. -/
  firstLine : Line
  /-- The number that tells the definition from every other one of its script. -/
  ident : Nat

end

namespace Code

/-- The name of the code of a script itself, which no function can have. -/
def moduleName : String := "<module>"

/-- The code is that of a script itself. -/
def isModule (code : Code) : Bool := code.name = moduleName

instance : FunctionHandle Code where
  name := Code.name
  ident := Code.ident

end Code

end Linewise
