import Linewise.Decimal.Reading
import Linewise.Syntax.Rule
import Linewise.Syntax.Tree

/-!
# The grammar

Statements end with a line or a semicolon, bodies stand in braces, and an `elif` or `else` follows
the closing brace on the same line.

Expressions are layered by how tightly their operators bind: `or`, `and`, `not`, one comparison,
sums, products, negation, and last calls and subscripts. Each layer is a rule over the next one,
and only what stands in brackets goes back to the first. How deep that may go is the number by
which `expression` and `body` recurse; the number of lexemes is enough, for a bracket is one.
-/

namespace Linewise.Syntax.Grammar

open Rule

/-- An expression as it is read. -/
abbrev Tree := Expr Digits

/-- A statement as it is read. -/
abbrev Statement := Stmt Digits

/-- The character that a backslash and a character stand for together. -/
def unescapeChar : Char → Char
  | 'n' => '\n'
  | 't' => '\t'
  | 'r' => '\r'
  | '0' => '\x00'
  | c => c

/-- The characters that the text between two quotes stands for. -/
def unescape : List Char → List Char
  | [] => []
  | c :: rest =>
    if c = '\\' then
      match rest with
      | [] => ['\\']
      | d :: rest => unescapeChar d :: unescape rest
    else c :: unescape rest

/-- A name. -/
def name : Rule String := named (read fun
  | .ident name => some name
  | _ => none)

/-! ## Expressions -/

section Expressions

variable (size : Nat) (expr : Rule Tree)

/-- A constant, a name, a list or an expression in parentheses. -/
def primary : Rule Tree := named do
  let lexeme ← current
  match lexeme.token with
  | .int digits => token lexeme.token; return .int ⟨digits, lexeme.line⟩
  | .decimal digits places => token lexeme.token; return .float (Decimal.nearest digits (-places))
  | .text raw => token lexeme.token; return .str (String.ofList (unescape raw))
  | .ident name => token lexeme.token; return .ident name
  | .keyword .trueKw => token lexeme.token; return .bool true
  | .keyword .falseKw => token lexeme.token; return .bool false
  | .keyword .noneKw => token lexeme.token; return .none
  | .symbol .openBracket =>
    symbol .openBracket
    let items ← optional do
      let items ← separated size expr
      let _ ← optional (symbol .comma)
      return items
    symbol .closeBracket
    return .list (items.getD [])
  | .symbol .openParen =>
    symbol .openParen
    let inner ← expr
    symbol .closeParen
    return inner
  | _ => fail

/-- The arguments of a call. -/
def callArgs : Rule (Tree → Tree) := named do
  symbol .openParen
  let args ← optional (separated size expr)
  symbol .closeParen
  return fun callee => .call callee (args.getD [])

/-- A subscript in brackets. -/
def subscript : Rule Tree := named do
  symbol .openBracket
  let index ← expr
  symbol .closeBracket
  return index

/-- A subscript that is applied to what stands in front of it. -/
def subscripted : Rule (Tree → Tree) := do
  let index ← subscript expr
  return fun object => .subscript object index

/-- A primary with any number of calls and subscripts after it. -/
def postfixed : Rule Tree := do
  let first ← primary size expr
  let suffixes ← repeated (orElse (callArgs size expr) (subscripted expr)) size
  return suffixes.foldl (fun tree apply => apply tree) first

/-- A binary operator from a table of spellings. -/
def operator (table : Symbol → Option BinaryOp) : Rule (Tree → Tree → Tree) := do
  let op ← read fun
    | .symbol s => table s
    | _ => none
  return .binary op

/-- The operators of products. -/
def product? : Symbol → Option BinaryOp
  | .doubleSlash => some .floorDiv
  | .star => some .mul
  | .slash => some .div
  | .percent => some .mod
  | _ => none

/-- The operators of sums. -/
def sum? : Symbol → Option BinaryOp
  | .plus => some .add
  | .minus => some .sub
  | _ => none

/-- The operators of comparisons. -/
def comparison? : Symbol → Option BinaryOp
  | .eq => some .eq
  | .ne => some .ne
  | .le => some .le
  | .ge => some .ge
  | .lt => some .lt
  | .gt => some .gt
  | _ => none

/-- An operand with any number of minus signs in front. -/
def negation : Rule Tree :=
  prefixChain size (do symbol .minus; return .unary .neg) (postfixed size expr)

/-- Negations with operators of products in between. -/
def product : Rule Tree := leftChain size (negation size expr) (operator product?)

/-- Products with operators of sums in between. -/
def sum : Rule Tree := leftChain size (product size expr) (operator sum?)

/-- One comparison at most: comparisons do not chain. -/
def comparison : Rule Tree := do
  let left ← sum size expr
  let rest ← optional do
    let join ← operator comparison?
    let right ← sum size expr
    return (join · right)
  return match rest with
    | some join => join left
    | none => left

/-- A comparison with any number of `not`s in front. -/
def inversion : Rule Tree :=
  prefixChain size (do keyword .notKw; return .unary .not) (comparison size expr)

/-- Inversions with `and` in between. -/
def conjunction : Rule Tree :=
  leftChain size (inversion size expr) (do keyword .andKw; return .logic .and)

/-- Conjunctions with `or` in between: the widest of all expressions. -/
def disjunction : Rule Tree :=
  leftChain size (conjunction size expr) (do keyword .orKw; return .logic .or)

end Expressions

/-- An expression with at most `depth` brackets inside of each other, counting itself. -/
def expression (size : Nat) : (depth : Nat) → Rule Tree
  | 0 => fail
  | depth + 1 => disjunction size (expression size depth)

/-! ## Statements -/

section Statements

variable (size : Nat) (expr : Rule Tree) (body : Rule (List Statement))

/-- The end of a statement. -/
def separator : Rule Unit := orElse (token .newline) (symbol .semicolon)

/-- A body in braces. -/
def block : Rule (List Statement) := named do
  symbol .openBrace
  let statements ← body
  symbol .closeBrace
  return statements

/-- One more arm of a conditional. -/
def arm : Rule (Line × Tree × List Statement) := do
  let lexeme ← current
  keyword .elifKw
  let test ← expr
  let statements ← block body
  return (lexeme.line, test, statements)

/-- The last arm of a conditional, which has no test. -/
def lastArm : Rule (List Statement) := do
  keyword .elseKw
  block body

/-- The arms of a conditional after its first one. -/
def otherwise : Rule (Otherwise Digits) := do
  let arms ← repeated (arm expr body) size
  let last ← optional (lastArm body)
  let final := match last with
    | some statements => .body statements
    | none => .nothing
  return arms.foldr (fun (line, test, statements) rest => .arm line test statements rest) final

/-- An assignment to a name or to an item of the list that a name is bound to. The sign must not
    be followed by another one. -/
def assignment (line : Line) : Rule Statement := do
  let target ← name
  let index ← optional (subscript expr)
  symbol .assign
  match (← current).token with
  | .symbol .assign | .symbol .eq => fail
  | _ =>
    let value ← expr
    return match index with
      | some index => .assignItem line target index value
      | none => .assign line target value

/-- The parameters of a definition, in parentheses. -/
def parameters : Rule (List String) := do
  symbol .openParen
  let params ← optional (separated size name)
  symbol .closeParen
  return params.getD []

/-- A statement. Whichever it is, its first lexeme is marked: other statements were tried there. -/
def statement : Rule Statement := do
  mark
  let lexeme ← current
  let line := lexeme.line
  match lexeme.token with
  | .keyword .ifKw =>
    keyword .ifKw
    let test ← expr
    let statements ← block body
    return .branch line test statements (← otherwise size expr body)
  | .keyword .whileKw =>
    keyword .whileKw
    let test ← expr
    return .whileLoop line test (← block body)
  | .keyword .forKw =>
    keyword .forKw
    let var ← name
    keyword .inKw
    let iterable ← expr
    return .forLoop line var iterable (← block body)
  | .keyword .defKw =>
    keyword .defKw
    let function ← name
    let params ← parameters size
    return .define line function params (← block body) lexeme.index
  | .keyword .returnKw =>
    keyword .returnKw
    return .leave line (← optional expr)
  | .keyword .breakKw => keyword .breakKw; return .breakLoop line
  | .keyword .continueKw => keyword .continueKw; return .continueLoop line
  | .keyword .passKw => keyword .passKw; return .pass line
  | _ => orElse (assignment expr line) (do return .expr line (← expr))

/-- Statements with separators between them, before them and after them. -/
def statements (one : Rule Statement) : Rule (List Statement) := do
  let _ ← repeated separator size
  match ← optional one with
  | none => return []
  | some first =>
    let rest ← repeated (do separator; let _ ← repeated separator size; one) size
    let _ ← repeated separator size
    return first :: rest

end Statements

/-- A body with at most `depth` bodies inside of each other, counting itself. -/
def body (size : Nat) : (depth : Nat) → Rule (List Statement)
  | 0 => fail
  | depth + 1 => statements size (statement size (expression size size) (body size depth))

/-- A whole script of `size` lexemes. -/
def script (size : Nat) : Rule (List Statement) := do
  let statements ← body size size
  named (token .finish)
  return statements

end Linewise.Syntax.Grammar
