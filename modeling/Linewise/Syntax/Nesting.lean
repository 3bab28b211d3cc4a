import Linewise.Syntax.Token
import Linewise.Text

/-!
# Nesting

Reading a script recurses once for each bracket and each prefix operator that is open, so how deep
they nest is bounded before reading starts. The bound is checked on the characters: texts and
comments are skipped, opening brackets count up and closing ones down, and the run of prefix
operators in front of the current character is counted on top.
-/

namespace Linewise.Syntax.Nesting

/-- The brackets that are open and the prefix operators that were just read. -/
structure Depth where
  brackets : Nat
  run : Nat
  deriving DecidableEq

/-- The length of the rest of a text in quotes: through its closing quote, or up to the end of the
    line, over which no backslash reaches. -/
def quotedLength (quote : Char) : List Char → Nat
  | [] => 0
  | c :: rest =>
    if c = '\n' then 0
    else if c = quote then 1
    else if c = '\\' then
      match rest with
      | [] => 1
      | d :: rest => if d = '\n' then 1 else 2 + quotedLength quote rest
    else 1 + quotedLength quote rest

/-- The depth after a character and the number of characters after it that it extends over. -/
def step (depth : Depth) (c : Char) (rest : List Char) : Depth × Nat :=
  if c = '\n' then ({ depth with run := 0 }, 0)
  else if c = ' ' || c = '\t' || c = '\r' then (depth, 0)
  else if c = '#' then (depth, (rest.takeWhile fun d => d ≠ '\n').length)
  else if c = '"' || c = '\'' then ({ depth with run := 0 }, quotedLength c rest)
  else if c = '(' || c = '[' || c = '\x7b' then (⟨depth.brackets + 1, 0⟩, 0)
  else if c = ')' || c = ']' || c = '\x7d' then (⟨depth.brackets - 1, 0⟩, 0)
  else if c = '-' then ({ depth with run := depth.run + 1 }, 0)
  else if isWordStart c then
    let tail := rest.takeWhile isWordChar
    if c :: tail = ['n', 'o', 't'] then ({ depth with run := depth.run + 1 }, tail.length)
    else ({ depth with run := 0 }, tail.length)
  else ({ depth with run := 0 }, 0)

/-- The first line on which the depth is beyond the limit. The first `skip` characters belong to
    something that has been read already. -/
def excessFrom (limit skip : Nat) (depth : Depth) (line : Nat) : List Char → Option Line
  | [] => none
  | c :: rest =>
    match skip with
    | skip + 1 => excessFrom limit skip depth line rest
    | 0 =>
      let (depth, skip) := step depth c rest
      let line := if c = '\n' then line + 1 else line
      if depth.brackets + depth.run > limit then some (Line.ofCount line)
      else excessFrom limit skip depth line rest

/-- The first line on which a script nests deeper than the limit. -/
def excess? (limit : Nat) (source : String) : Option Line :=
  excessFrom limit 0 ⟨0, 0⟩ 1 source.toList

end Linewise.Syntax.Nesting
