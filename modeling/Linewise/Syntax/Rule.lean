import Linewise.Syntax.Token

/-!
# Rules

A *rule* reads some lexemes from the front of a list and gives what they stand for, or it fails
and reads nothing. Rules are tried in order: a choice takes the first alternative that does not
fail, and a repetition goes on for as long as it can.

When a whole script is refused, the place to show is the furthest one at which a rule was tried in
vain. Rules therefore hand on a *reach*, the number of the furthest lexeme marked so far, and it
outlives the failure of whatever marked it. A rule marks the lexeme it started at when it fails
(`named`); single symbols leave no marks.
-/

namespace Linewise.Syntax

/-- A rule for an `α`: from the lexemes to read and the reach so far to what was read, with the
    lexemes left, and the new reach. -/
def Rule (α : Type) : Type := List Lexeme → Nat → Option (α × List Lexeme) × Nat

namespace Rule

variable {α β : Type}

instance : Monad Rule where
  pure a := fun rest reach => (some (a, rest), reach)
  bind p f := fun lexemes reach =>
    match p lexemes reach with
    | (some (a, rest), reach) => f a rest reach
    | (none, reach) => (none, reach)

/-- The rule that always fails. -/
def fail : Rule α := fun _ reach => (none, reach)

/-- The number of the first of some lexemes. -/
def front : List Lexeme → Nat
  | [] => 0
  | lexeme :: _ => lexeme.index

/-- Reads nothing and marks the current lexeme. -/
def mark : Rule Unit := fun lexemes reach => (some ((), lexemes), max reach (front lexemes))

/-- The same rule, which marks the lexeme it started at when it fails. -/
def named (p : Rule α) : Rule α := fun lexemes reach =>
  match p lexemes reach with
  | (some a, reach) => (some a, reach)
  | (none, reach) => (none, max reach (front lexemes))

/-- Reads nothing and gives the current lexeme. -/
def current : Rule Lexeme := fun lexemes reach =>
  match lexemes with
  | [] => (none, reach)
  | lexeme :: _ => (some (lexeme, lexemes), reach)

/-- One lexeme that a partial function has a value for. -/
def read (f : Token → Option α) : Rule α := fun lexemes reach =>
  match lexemes with
  | [] => (none, reach)
  | lexeme :: rest =>
    match f lexeme.token with
    | some a => (some (a, rest), reach)
    | none => (none, reach)

/-- One given token. -/
def token (t : Token) : Rule Unit := read fun u => if u = t then some () else none

/-- One given symbol. -/
def symbol (s : Symbol) : Rule Unit := token (.symbol s)

/-- One given keyword, which leaves a mark when it is missing. -/
def keyword (k : Keyword) : Rule Unit := named (token (.keyword k))

/-- A rule that may be left out. -/
def optional (p : Rule α) : Rule (Option α) := fun lexemes reach =>
  match p lexemes reach with
  | (some (a, rest), reach) => (some (some a, rest), reach)
  | (none, reach) => (some (none, lexemes), reach)

/-- The first of two rules, or the second one where the first fails. -/
def orElse (p q : Rule α) : Rule α := fun lexemes reach =>
  match p lexemes reach with
  | (some a, reach) => (some a, reach)
  | (none, reach) => q lexemes reach

/-- A rule as often as it can be applied in a row, at most `most` times. -/
def repeated (p : Rule α) : (most : Nat) → Rule (List α)
  | 0 => pure []
  | most + 1 => do
    match ← optional p with
    | none => pure []
    | some a => return a :: (← repeated p most)

/-- Items with commas between them, at least one of them. -/
def separated (most : Nat) (item : Rule α) : Rule (List α) := do
  let first ← item
  let rest ← repeated (do symbol .comma; item) most
  return first :: rest

/-- Operands with operators between them, joined from the left. -/
def leftChain (most : Nat) (operand : Rule α) (op : Rule (α → α → α)) : Rule α := do
  let first ← operand
  let rest ← repeated (do
    let join ← op
    let right ← operand
    return (join · right)) most
  return rest.foldl (fun left join => join left) first

/-- An operand after any number of prefix operators, which apply from the inside out. -/
def prefixChain (most : Nat) (op : Rule (α → α)) (operand : Rule α) : Rule α := do
  let ops ← repeated op most
  let inner ← operand
  return ops.foldr (fun apply a => apply a) inner

end Rule

end Linewise.Syntax
