import Linewise.Syntax.Tree
import Linewise.Text

/-!
# From trees to programs

A tree that the grammar accepts becomes a program when each of its integers fits in sixty-four
bits and no definition names a parameter twice. The first complaint counts, in the order in which
the parts of the tree are looked at: parts come in their written order, except that an assigned
value comes before the subscript it is assigned to.

Digits carry no sign, so a minus sign in front of a number is an operator at first. It is folded
into the number afterwards (`Expr.fold`).
-/

namespace Linewise

/-- What is wrong with a tree that the grammar accepts. -/
inductive Complaint
  | tooLarge (digits : String)
  | duplicate (param function : String)
  deriving DecidableEq

/-- The text of a complaint. -/
def Complaint.message : Complaint → String
  | tooLarge digits =>
    s!"invalid integer literal '{digits}': number too large to fit in target type"
  | duplicate param function =>
    s!"duplicate argument '{param}' in function definition '{function}'"

/-- A complaint and the line it is about. -/
structure Located where
  complaint : Complaint
  line : Line
  deriving DecidableEq

/-- The integer that digits spell. -/
def Digits.resolve (digits : Digits) : Except Located Int64 :=
  match Numeral.int64? digits.text with
  | some n => .ok n
  | none => .error ⟨.tooLarge digits.text, digits.line⟩

/-- The first parameter that stands in a list for the second time. -/
def repeatedParam? : List String → List String → Option String
  | _, [] => none
  | seen, param :: rest =>
    if seen.contains param then some param else repeatedParam? (param :: seen) rest

/-- No parameter of a definition is named twice. -/
def checkParams (line : Line) (function : String) (params : List String) :
    Except Located Unit :=
  match repeatedParam? [] params with
  | some param => .error ⟨.duplicate param function, line⟩
  | none => .ok ()

/-! ## Integers -/

mutual

/-- The expression with its digits as integers. -/
def Expr.resolve : Expr Digits → Except Located (Expr Int64)
  | .int digits => do return .int (← digits.resolve)
  | .float x => .ok (.float x)
  | .str s => .ok (.str s)
  | .bool b => .ok (.bool b)
  | .none => .ok .none
  | .list items => do return .list (← Expr.resolveItems items)
  | .ident name => .ok (.ident name)
  | .subscript object index => do return .subscript (← object.resolve) (← index.resolve)
  | .call callee args => do return .call (← callee.resolve) (← Expr.resolveItems args)
  | .unary op operand => do return .unary op (← operand.resolve)
  | .binary op left right => do return .binary op (← left.resolve) (← right.resolve)
  | .logic op left right => do return .logic op (← left.resolve) (← right.resolve)

/-- The expressions with their digits as integers. -/
def Expr.resolveItems : List (Expr Digits) → Except Located (List (Expr Int64))
  | [] => .ok []
  | item :: rest => do return (← item.resolve) :: (← Expr.resolveItems rest)

end

mutual

/-- The statement with its digits as integers. -/
def Stmt.resolve : Stmt Digits → Except Located (Stmt Int64)
  | .expr line value => do return .expr line (← value.resolve)
  | .assign line name value => do return .assign line name (← value.resolve)
  | .assignItem line name index value => do
    let value ← value.resolve
    return .assignItem line name (← index.resolve) value
  | .branch line test body otherwise => do
    return .branch line (← test.resolve) (← Stmt.resolveBody body) (← otherwise.resolve)
  | .whileLoop line test body => do
    return .whileLoop line (← test.resolve) (← Stmt.resolveBody body)
  | .forLoop line var iterable body => do
    return .forLoop line var (← iterable.resolve) (← Stmt.resolveBody body)
  | .define line name params body ident => do
    checkParams line name params
    return .define line name params (← Stmt.resolveBody body) ident
  | .leave line none => .ok (.leave line none)
  | .leave line (some value) => do return .leave line (some (← value.resolve))
  | .breakLoop line => .ok (.breakLoop line)
  | .continueLoop line => .ok (.continueLoop line)
  | .pass line => .ok (.pass line)

/-- The arms with their digits as integers. -/
def Otherwise.resolve : Otherwise Digits → Except Located (Otherwise Int64)
  | .nothing => .ok .nothing
  | .body body => do return .body (← Stmt.resolveBody body)
  | .arm line test body otherwise => do
    return .arm line (← test.resolve) (← Stmt.resolveBody body) (← otherwise.resolve)

/-- The statements with their digits as integers. -/
def Stmt.resolveBody : List (Stmt Digits) → Except Located (List (Stmt Int64))
  | [] => .ok []
  | stmt :: rest => do return (← stmt.resolve) :: (← Stmt.resolveBody rest)

end

/-! ## Signs -/

/-- A minus sign in front of an expression: part of a number, an operator in front of all else. -/
def Expr.negate : Expr Int64 → Expr Int64
  | .int n => .int (-n)
  | .float x => .float (-x)
  | operand => .unary .neg operand

mutual

/-- The expression with the minus signs of numbers folded into them. -/
def Expr.fold : Expr Int64 → Expr Int64
  | .list items => .list (Expr.foldItems items)
  | .subscript object index => .subscript object.fold index.fold
  | .call callee args => .call callee.fold (Expr.foldItems args)
  | .unary .neg operand => operand.fold.negate
  | .unary .not operand => .unary .not operand.fold
  | .binary op left right => .binary op left.fold right.fold
  | .logic op left right => .logic op left.fold right.fold
  | .int n => .int n
  | .float x => .float x
  | .str s => .str s
  | .bool b => .bool b
  | .none => .none
  | .ident name => .ident name

/-- The expressions with the minus signs of numbers folded into them. -/
def Expr.foldItems : List (Expr Int64) → List (Expr Int64)
  | [] => []
  | item :: rest => item.fold :: Expr.foldItems rest

end

mutual

/-- The statement with the minus signs of numbers folded into them. -/
def Stmt.fold : Stmt Int64 → Stmt Int64
  | .expr line value => .expr line value.fold
  | .assign line name value => .assign line name value.fold
  | .assignItem line name index value => .assignItem line name index.fold value.fold
  | .branch line test body otherwise => .branch line test.fold (Stmt.foldBody body) otherwise.fold
  | .whileLoop line test body => .whileLoop line test.fold (Stmt.foldBody body)
  | .forLoop line var iterable body => .forLoop line var iterable.fold (Stmt.foldBody body)
  | .define line name params body ident => .define line name params (Stmt.foldBody body) ident
  | .leave line value => .leave line (value.map Expr.fold)
  | .breakLoop line => .breakLoop line
  | .continueLoop line => .continueLoop line
  | .pass line => .pass line

/-- The arms with the minus signs of numbers folded into them. -/
def Otherwise.fold : Otherwise Int64 → Otherwise Int64
  | .nothing => .nothing
  | .body body => .body (Stmt.foldBody body)
  | .arm line test body otherwise =>
    .arm line test.fold (Stmt.foldBody body) otherwise.fold

/-- The statements with the minus signs of numbers folded into them. -/
def Stmt.foldBody : List (Stmt Int64) → List (Stmt Int64)
  | [] => []
  | stmt :: rest => stmt.fold :: Stmt.foldBody rest

end

end Linewise
