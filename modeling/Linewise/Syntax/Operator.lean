/-!
# Operators of the script language

Unary and binary operators work on evaluated operands. The logical operators are kept apart: they
evaluate their right operand only when the left one leaves the answer open, and they yield one of
their operands.
-/

namespace Linewise

/-- An operator with one operand. -/
inductive UnaryOp
  | neg
  | not
  deriving DecidableEq

/-- The spelling of a unary operator. -/
def UnaryOp.symbol : UnaryOp → String
  | .neg => "-"
  | .not => "not"

/-- An operator with two operands, both of them evaluated. -/
inductive BinaryOp
  | add
  | sub
  | mul
  | div
  | floorDiv
  | mod
  | eq
  | ne
  | lt
  | le
  | gt
  | ge
  deriving DecidableEq

/-- The spelling of a binary operator. -/
def BinaryOp.symbol : BinaryOp → String
  | .add => "+"
  | .sub => "-"
  | .mul => "*"
  | .div => "/"
  | .floorDiv => "//"
  | .mod => "%"
  | .eq => "=="
  | .ne => "!="
  | .lt => "<"
  | .le => "<="
  | .gt => ">"
  | .ge => ">="

/-- An operator that decides from its left operand whether it needs the right one. -/
inductive LogicOp
  | and
  | or
  deriving DecidableEq

/-- The spelling of a logical operator. -/
def LogicOp.symbol : LogicOp → String
  | .and => "and"
  | .or => "or"

end Linewise
