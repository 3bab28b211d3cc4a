import Linewise.Value.Conversion
import Linewise.Value.Sequence

/-!
# Calls of built-in functions

A built-in function takes evaluated arguments and gives a value or a fault; `print` gives a text
to be written as well.
-/

namespace Linewise.Builtin

variable {φ : Type}

/-- What a call gives: a value, and a text that is written before it is given. -/
structure Reply (φ : Type) where
  value : Value φ
  printed : Option String

/-- The only argument of a call. -/
def single (callee : Builtin) : List (Value φ) → Except Cause (Value φ)
  | [v] => .ok v
  | args => .error (.notOneArgument callee args.length)

variable [FunctionHandle φ]

/-- The text that `print` writes: those of its arguments, with blanks between them. -/
def line (args : List (Value φ)) : String :=
  String.intercalate " " (args.map Value.display)

/-- The text that `type` gives for a kind of values. -/
def kindText (kind : ValueKind) : String :=
  s!"<class '{kind.name}'>"

/-- The value of a call of a function other than `print`, which has none. -/
def value (callee : Builtin) (args : List (Value φ)) : Except Cause (Value φ) :=
  match callee with
  | print => .ok .none
  | str => return .str (← single callee args).display
  | int => do (← single callee args).convertInt
  | float => do (← single callee args).convertFloat
  | type => return .str (kindText (← single callee args).kind)
  | len => do (← single callee args).length
  | range => Value.range args
  | abs => do (← single callee args).absolute
  | min => Value.pick .least args
  | max => Value.pick .greatest args
  | append => Value.append args

/-- The call of a built-in function. -/
def call (callee : Builtin) (args : List (Value φ)) : Except Cause (Reply φ) := do
  let v ← value callee args
  return ⟨v, if callee = print then some (line args) else none⟩

end Linewise.Builtin
