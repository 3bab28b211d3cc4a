import Linewise.Builtin.Basic
import Linewise.Syntax.Operator
import Linewise.Text

/-!
# Faults

A fault ends a run. It has a *cause*, from which its class and its message follow, and the line
that was being executed when it arose. A fault that arises outside of any line, such as one met
while the script is still being read, carries the line that it is about or none.

The messages of many faults name the kinds of the values that they are about (`ValueKind`).
-/

namespace Linewise

/-! ## Kinds of values -/

/-- A kind of value, as far as a script can tell. -/
inductive ValueKind
  | none
  | bool
  | int
  | float
  | str
  | list
  | function
  | builtin
  deriving DecidableEq

/-- The name of a kind, as scripts see it. -/
def ValueKind.name : ValueKind → String
  | .none => "NoneType"
  | .bool => "bool"
  | .int => "int"
  | .float => "float"
  | .str => "str"
  | .list => "list"
  | .function => "function"
  | .builtin => "builtin_function_or_method"

/-! ## Causes -/

/-- The class of a fault, as scripts and their users know it. -/
inductive FaultClass
  | syntaxError
  | nameError
  | typeError
  | valueError
  | indexError
  | zeroDivisionError
  | overflowError
  | recursionError
  | memoryError
  | systemError
  deriving DecidableEq

/-- The name of a class of faults. -/
def FaultClass.name : FaultClass → String
  | .syntaxError => "SyntaxError"
  | .nameError => "NameError"
  | .typeError => "TypeError"
  | .valueError => "ValueError"
  | .indexError => "IndexError"
  | .zeroDivisionError => "ZeroDivisionError"
  | .overflowError => "OverflowError"
  | .recursionError => "RecursionError"
  | .memoryError => "MemoryError"
  | .systemError => "SystemError"

/-- How a sequence was subscripted. -/
inductive Access
  | listItem
  | character
  | listAssignment
  deriving DecidableEq

/-- What a subscript is applied to. -/
def Access.container : Access → String
  | .character => "string"
  | .listItem | .listAssignment => "list"

/-- How a message names a subscript that leaves the range. -/
def Access.description : Access → String
  | .listItem => "list"
  | .character => "string"
  | .listAssignment => "list assignment"

/-- The operation that met a divisor of zero. -/
inductive Division
  | quotient
  | integer
  | floatFloor
  | floatRemainder
  deriving DecidableEq

/-- How a message names a division by zero. -/
def Division.message : Division → String
  | .quotient => "division by zero"
  | .integer => "integer division or modulo by zero"
  | .floatFloor => "float floor division by zero"
  | .floatRemainder => "float modulo"

/-- A way in which the machine itself can fail, which compiled scripts never do. -/
inductive Breakdown
  | stackUnderflow
  | noIterator
  | fellOffFunction
  deriving DecidableEq

/-- How a message names a breakdown of the machine. -/
def Breakdown.message : Breakdown → String
  | .stackUnderflow => "operand stack underflow"
  | .noIterator => "no open loop iterator"
  | .fellOffFunction => "fell off the end of a function"

/-- A statement that only has a meaning inside another one, and stands outside of it. -/
inductive Misplaced
  | returnOutside
  | breakOutside
  | continueOutside
  deriving DecidableEq

/-- How a message names a misplaced statement. -/
def Misplaced.message : Misplaced → String
  | .returnOutside => "'return' outside function"
  | .breakOutside => "'break' outside loop"
  | .continueOutside => "'continue' not properly in loop"

/-- Why a script was refused before it ran. -/
inductive Refusal
  | invalidSyntax
  | tooDeep
  | ill (message : String)
  | misplaced (jump : Misplaced)
  deriving DecidableEq

/-- The text of a refusal. -/
def Refusal.message : Refusal → String
  | .invalidSyntax => "invalid syntax"
  | .tooDeep => "too many nested parentheses"
  | .ill message => message
  | .misplaced jump => jump.message

/-- The cause of a fault. -/
inductive Cause
  /-- The script was refused. -/
  | refused (why : Refusal)
  /-- A name is bound nowhere. -/
  | unbound (name : String)
  | badNegation (operand : ValueKind)
  | unordered (symbol : String) (left right : ValueKind)
  | badOperands (op : BinaryOp) (left right : ValueKind)
  | notSubscriptable (object : ValueKind)
  | notAssignable (object : ValueKind)
  | badIndex (access : Access) (index : ValueKind)
  | outOfRange (access : Access)
  | notCallable (callee : ValueKind)
  | notIterable (iterable : ValueKind)
  | badArgument (callee : Builtin) (given : ValueKind)
  | badAbs (given : ValueKind)
  | noLength (given : ValueKind)
  | notInteger (given : ValueKind)
  | notOneArgument (callee : Builtin) (given : Nat)
  | rangeArity (given : Nat)
  | appendArity
  | notList (given : ValueKind)
  | arity (name : String) (expected given : Nat)
  | zeroStep
  | emptySequence (callee : Builtin)
  | badIntText (text : String)
  | badFloatText (text : String)
  | notFinite (text : String)
  | zeroDivision (division : Division)
  | overflow
  | tooDeepRecursion
  | longRepetition
  | longRange
  | breakdown (how : Breakdown)
  deriving DecidableEq

namespace Cause

/-- The class that a fault of this cause belongs to. -/
def kind : Cause → FaultClass
  | refused _ => .syntaxError
  | unbound _ => .nameError
  | badNegation _ | unordered .. | badOperands .. | notSubscriptable _ | notAssignable _
  | badIndex .. | notCallable _ | notIterable _ | badArgument .. | badAbs _ | noLength _
  | notInteger _ | notOneArgument .. | rangeArity _ | appendArity | notList _ | arity .. =>
    .typeError
  | zeroStep | emptySequence _ | badIntText _ | badFloatText _ | notFinite _ => .valueError
  | outOfRange _ => .indexError
  | zeroDivision _ => .zeroDivisionError
  | overflow => .overflowError
  | tooDeepRecursion => .recursionError
  | longRepetition | longRange => .memoryError
  | breakdown _ => .systemError

/-- The message of a fault of this cause. -/
def message : Cause → String
  | refused why => why.message
  | unbound name => s!"name '{name}' is not defined"
  | badNegation operand => s!"bad operand type for unary -: '{operand.name}'"
  | unordered symbol left right =>
    s!"'{symbol}' not supported between instances of '{left.name}' and '{right.name}'"
  | badOperands op left right =>
    s!"unsupported operand type(s) for {op.symbol}: '{left.name}' and '{right.name}'"
  | notSubscriptable object => s!"'{object.name}' object is not subscriptable"
  | notAssignable object => s!"'{object.name}' object does not support item assignment"
  | badIndex access index =>
    s!"{access.container} indices must be integers, not {index.name}"
  | outOfRange access => s!"{access.description} index out of range"
  | notCallable callee => s!"'{callee.name}' object is not callable"
  | notIterable iterable => s!"'{iterable.name}' object is not iterable"
  | badArgument callee given =>
    s!"{callee.name}() argument must be a string or a number, not '{given.name}'"
  | badAbs given => s!"bad operand type for abs(): '{given.name}'"
  | noLength given => s!"object of type '{given.name}' has no len()"
  | notInteger given => s!"'{given.name}' object cannot be interpreted as an integer"
  | notOneArgument callee given =>
    s!"{callee.name}() takes exactly one argument ({given} given)"
  | rangeArity given => s!"range expected 1 to 3 arguments, got {given}"
  | appendArity => "append() takes exactly 2 arguments"
  | notList given => s!"append() first argument must be a list, not '{given.name}'"
  | arity name expected given =>
    s!"{name}() takes {expected} positional argument" ++ (if expected = 1 then "" else "s") ++
      s!" but {given} " ++ (if given = 1 then "was" else "were") ++ " given"
  | zeroStep => "range() arg 3 must not be zero"
  | emptySequence callee => s!"{callee.name}() arg is an empty sequence"
  | badIntText text => s!"invalid literal for int() with base 10: '{text}'"
  | badFloatText text => s!"could not convert string to float: '{text}'"
  | notFinite text => s!"cannot convert float {text} to integer"
  | zeroDivision division => division.message
  | overflow => "integer overflow"
  | tooDeepRecursion => "maximum recursion depth exceeded"
  | longRepetition => "repeated sequence is too large"
  | longRange => "range() result is too large"
  | breakdown how => how.message

end Cause

/-- A fault: its cause and the line it arose on. -/
structure Fault where
  cause : Cause
  line : Option Line
  deriving DecidableEq

namespace Fault

/-- The fault of a given cause on a given line, where zero is no line. -/
def onLine (cause : Cause) (line : Line) : Fault :=
  ⟨cause, if line = 0 then none else some line⟩

/-- The text that users see: class, message and line. -/
def text (fault : Fault) : String :=
  let place := match fault.line with
    | some line => s!" (line {line})"
    | none => ""
  s!"{fault.cause.kind.name}: {fault.cause.message}{place}"

end Fault

end Linewise
