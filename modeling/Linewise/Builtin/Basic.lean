/-!
# Built-in functions

The functions that every script can call. A name that is bound neither locally nor globally is
looked up among them, so a script may bind such a name for itself.
-/

namespace Linewise

/-- A built-in function. -/
inductive Builtin
  | print
  | str
  | int
  | float
  | len
  | range
  | abs
  | min
  | max
  | append
  | type
  deriving DecidableEq

namespace Builtin

/-- The name that scripts call the function by. -/
def name : Builtin → String
  | print => "print"
  | str => "str"
  | int => "int"
  | float => "float"
  | len => "len"
  | range => "range"
  | abs => "abs"
  | min => "min"
  | max => "max"
  | append => "append"
  | type => "type"

/-- Every built-in function. -/
def all : List Builtin :=
  [print, str, int, float, len, range, abs, min, max, append, type]

/-- The built-in function of a given name. -/
def ofName? (name : String) : Option Builtin :=
  all.find? fun b => b.name = name

theorem ofName?_name (b : Builtin) : ofName? b.name = some b := by
  cases b <;> decide

end Builtin

end Linewise
