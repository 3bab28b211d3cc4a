import Linewise.Code.Basic
import Linewise.Code.Placement

/-!
# Emission

Every statement and every expression stands for a run of instructions that follows from it alone,
up to the addresses in it. So the length of the run is known beforehand (`codeSize`), and each
jump is emitted with its target.

Before a statement stands a `line` instruction, unless the code that runs just before it in the
same body, or the header of that body, is on the same line. The header of a loop gets one of its
own, which is run before every evaluation but the first: the first one follows the `line`
instruction of the loop itself.

    while test                      for name in iterable
                                          iterable; iterStart
          jump 1                          jump 1
     head: line                      head: line
        1: test; jumpIfFalse exit       1: iterNext exit; store name
           body; jump head                 body; jump head
     exit:                           exit:

A program has a code when no statement in it is misplaced (`Program.compile`).
-/

namespace Linewise

/-! ## Expressions -/

mutual

/-- The number of instructions that an expression stands for. -/
def Expr.codeSize : Expr Int64 → Nat
  | .int _ | .float _ | .str _ | .bool _ | .none | .ident _ => 1
  | .list items => Expr.codeSizeOf items + 1
  | .subscript object index => object.codeSize + index.codeSize + 1
  | .call callee args => callee.codeSize + Expr.codeSizeOf args + 1
  | .unary _ operand => operand.codeSize + 1
  | .binary _ left right => left.codeSize + right.codeSize + 1
  | .logic _ left right => left.codeSize + 1 + right.codeSize

/-- The number of instructions that a list of expressions stands for. -/
def Expr.codeSizeOf : List (Expr Int64) → Nat
  | [] => 0
  | item :: rest => item.codeSize + Expr.codeSizeOf rest

end

/-- The jump that leaves the left operand of a logical operator as its value. -/
def LogicOp.jump : LogicOp → Nat → Instr
  | .and, target => .jumpIfFalseOrPop target
  | .or, target => .jumpIfTrueOrPop target

mutual

/-- The instructions that push the value of an expression, from the address `start` on. -/
def Expr.emit (start : Nat) : Expr Int64 → List Instr
  | .int n => [.const (.int n)]
  | .float x => [.const (.float x)]
  | .str s => [.const (.str s)]
  | .bool b => [.const (.bool b)]
  | .none => [.const .none]
  | .ident name => [.load name]
  | .list items => Expr.emitAll start items ++ [.buildList items.length]
  | .subscript object index =>
    object.emit start ++ index.emit (start + object.codeSize) ++ [.index]
  | .call callee args =>
    callee.emit start ++ Expr.emitAll (start + callee.codeSize) args ++ [.call args.length]
  | .unary op operand => operand.emit start ++ [.unary op]
  | .binary op left right =>
    left.emit start ++ right.emit (start + left.codeSize) ++ [.binary op]
  | .logic op left right =>
    let next := start + left.codeSize + 1
    left.emit start ++ op.jump (next + right.codeSize) :: right.emit next

/-- The instructions that push the values of expressions, one after the other. -/
def Expr.emitAll (start : Nat) : List (Expr Int64) → List Instr
  | [] => []
  | item :: rest => item.emit start ++ Expr.emitAll (start + item.codeSize) rest

end

/-! ## Statements -/

/-- The two kinds of loops. One that goes through items has an iterator to close. -/
inductive LoopKind
  | testing
  | iterating
  deriving DecidableEq

/-- The innermost loop around a statement: where it begins anew and where it ends. -/
structure Loop where
  kind : LoopKind
  head : Nat
  exit : Nat

/-- The number of `line` instructions before a statement, after code of the line `before`. -/
def lineSize (before line : Line) : Nat := if line = before then 0 else 1

/-- The `line` instruction before a statement, after code of the line `before`. -/
def emitLine (before line : Line) : List Instr := if line = before then [] else [.line line]

/-- The number of instructions that leave a loop. -/
def LoopKind.breakSize : LoopKind → Nat
  | testing => 1
  | iterating => 2

/-- The instructions that leave a loop. -/
def Loop.emitBreak (loop : Loop) : List Instr :=
  match loop.kind with
  | .testing => [.jump loop.exit]
  | .iterating => [.iterDrop, .jump loop.exit]

/-- The value of a `return`, which without an expression is nothing. -/
def returned (value : Option (Expr Int64)) : Expr Int64 := value.getD .none

mutual

/-- The number of instructions that a statement in a loop of a given kind stands for. -/
def Stmt.codeSize (loop : Option LoopKind) : Stmt Int64 → Nat
  | .expr _ value => value.codeSize + 1
  | .assign _ _ value => value.codeSize + 1
  | .assignItem _ _ index value => index.codeSize + value.codeSize + 1
  | .branch line test body otherwise =>
    test.codeSize + 1 + Stmt.codeSizeOf loop line body + 1 + otherwise.codeSize loop
  | .whileLoop line test body =>
    2 + test.codeSize + 1 + Stmt.codeSizeOf (some .testing) line body + 1
  | .forLoop line _ iterable body =>
    iterable.codeSize + 3 + 2 + Stmt.codeSizeOf (some .iterating) line body + 1
  | .define .. => 2
  | .leave _ value => (returned value).codeSize + 1
  | .breakLoop _ => (loop.map LoopKind.breakSize).getD 0
  | .continueLoop _ => if loop.isSome then 1 else 0
  | .pass _ => 0

/-- The number of instructions that the arms of a conditional stand for. -/
def Otherwise.codeSize (loop : Option LoopKind) : Otherwise Int64 → Nat
  | .nothing => 0
  | .body body => Stmt.codeSizeOf loop 0 body
  | .arm line test body otherwise =>
    1 + test.codeSize + 1 + Stmt.codeSizeOf loop line body + 1 + otherwise.codeSize loop

/-- The number of instructions that a body stands for, after code of the line `before`. -/
def Stmt.codeSizeOf (loop : Option LoopKind) (before : Line) : List (Stmt Int64) → Nat
  | [] => 0
  | stmt :: rest =>
    lineSize before stmt.line + stmt.codeSize loop + Stmt.codeSizeOf loop stmt.line rest

end

mutual

/-- The instructions of a statement, from the address `start` on. Misplaced jumps have none. -/
def Stmt.emit (loop : Option Loop) (start : Nat) : Stmt Int64 → List Instr
  | .expr _ value => value.emit start ++ [.pop]
  | .assign _ name value => value.emit start ++ [.store name]
  | .assignItem _ name index value =>
    index.emit start ++ value.emit (start + index.codeSize) ++ [.storeIndex name]
  | .branch line test body otherwise =>
    let inner := start + test.codeSize + 1
    let next := inner + Stmt.codeSizeOf (loop.map Loop.kind) line body + 1
    let finish := next + otherwise.codeSize (loop.map Loop.kind)
    test.emit start ++ .jumpIfFalse next :: Stmt.emitAll loop line inner body ++
      .jump finish :: otherwise.emit loop finish next
  | .whileLoop line test body =>
    let head := start + 1
    let inner := head + 1 + test.codeSize + 1
    let exit := inner + Stmt.codeSizeOf (some .testing) line body + 1
    .jump (head + 1) :: .line line :: test.emit (head + 1) ++
      .jumpIfFalse exit :: Stmt.emitAll (some ⟨.testing, head, exit⟩) line inner body ++
      [.jump head]
  | .forLoop line var iterable body =>
    let head := start + iterable.codeSize + 2
    let inner := head + 3
    let exit := inner + Stmt.codeSizeOf (some .iterating) line body + 1
    iterable.emit start ++ .iterStart :: .jump (head + 1) :: .line line :: .iterNext exit ::
      .store var :: Stmt.emitAll (some ⟨.iterating, head, exit⟩) line inner body ++
      [.jump head]
  | .define line name params body ident =>
    let instrs := Stmt.emitAll none line 0 body ++ [.const .none, .leave]
    [.makeFunction ⟨name, params, instrs, line, ident⟩, .store name]
  | .leave _ none => [.const .none, .leave]
  | .leave _ (some value) => value.emit start ++ [.leave]
  | .breakLoop _ => (loop.map Loop.emitBreak).getD []
  | .continueLoop _ => (loop.map fun loop => [Instr.jump loop.head]).getD []
  | .pass _ => []

/-- The instructions of the arms of a conditional that ends at the address `finish`. -/
def Otherwise.emit (loop : Option Loop) (finish start : Nat) : Otherwise Int64 → List Instr
  | .nothing => []
  | .body body => Stmt.emitAll loop 0 start body
  | .arm line test body otherwise =>
    let inner := start + 1 + test.codeSize + 1
    let next := inner + Stmt.codeSizeOf (loop.map Loop.kind) line body + 1
    .line line :: test.emit (start + 1) ++
      .jumpIfFalse next :: Stmt.emitAll loop line inner body ++
      .jump finish :: otherwise.emit loop finish next

/-- The instructions of a body, after code of the line `before`. -/
def Stmt.emitAll (loop : Option Loop) (before : Line) (start : Nat) :
    List (Stmt Int64) → List Instr
  | [] => []
  | stmt :: rest =>
    let inner := start + lineSize before stmt.line
    emitLine before stmt.line ++ stmt.emit loop inner ++
      Stmt.emitAll loop stmt.line (inner + stmt.codeSize (loop.map Loop.kind)) rest

end

/-! ## Whole programs -/

namespace Program

/-- The code that the statements of a program stand for. -/
def emit (program : Program) : Code where
  name := Code.moduleName
  params := []
  instrs := Stmt.emitAll none 0 0 program
  firstLine := 0
  ident := 0

/-- The code of a program, or the fault of its first misplaced statement. -/
def compile (program : Program) : Except Fault Code :=
  match Stmt.misplacedIn? .outermost program with
  | some fault => .error fault
  | none => .ok program.emit

end Program

end Linewise
