import Linewise.Syntax.Grammar
import Linewise.Syntax.Nesting
import Linewise.Syntax.Resolve

/-!
# Reading scripts

A script is read in three stages, each of which may refuse it: it must not nest too deeply, the
grammar has to accept it, and its tree has to become a program.
-/

namespace Linewise

/-- Why a text is not a script. -/
inductive SyntaxFault
  /-- The grammar accepts no text that goes on as this one does at a place. -/
  | unexpected (line : Line) (column : Nat)
  | ill (complaint : Located)
  | tooDeep (line : Line) (limit : Nat)
  deriving DecidableEq

/-- The text of a syntax fault. -/
def SyntaxFault.message : SyntaxFault → String
  | unexpected line column => s!"invalid syntax (line {line}, column {column})"
  | ill complaint => s!"{complaint.complaint.message} (line {complaint.line})"
  | tooDeep line limit => s!"too many nested parentheses (line {line}, limit {limit})"

namespace Program

/-- How deep scripts may nest unless said otherwise. -/
def defaultNesting : Nat := 20

/-- The tree that the grammar reads from a text. -/
def tree (source : String) : Except SyntaxFault (List (Stmt Digits)) :=
  let lexemes := Syntax.scan source
  match Syntax.Grammar.script lexemes.length (lexemes.map Prod.fst) 0 with
  | (some (tree, _), _) => .ok tree
  | (none, reach) =>
    match lexemes[reach]? with
    | some (lexeme, column) => .error (.unexpected lexeme.line column)
    | none => .error (.unexpected 1 1)

/-- The program that a text spells before the signs of numbers are folded into them. -/
def unfolded (limit : Nat) (source : String) : Except SyntaxFault Program :=
  match Syntax.Nesting.excess? limit source with
  | some line => .error (.tooDeep line limit)
  | none =>
    match tree source with
    | .error fault => .error fault
    | .ok tree =>
      match Stmt.resolveBody tree with
      | .error complaint => .error (.ill complaint)
      | .ok program => .ok program

/-- The program that a text spells. -/
def parse (limit : Nat) (source : String) : Except SyntaxFault Program :=
  (unfolded limit source).map Stmt.foldBody

end Program

end Linewise
