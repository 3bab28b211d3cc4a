import Linewise.Bindings
import Linewise.Builtin.Call
import Linewise.Syntax.Tree
import Linewise.Value.Arithmetic
import Linewise.Value.Subscript

/-!
# Evaluation

What a program means, by its tree alone: no instructions, no addresses and no stacks. Expressions
have values, statements run one after the other, and both may print texts and change the global
bindings of a script (`World`) on the way. A fault ends everything.

* A name means what it is bound to locally, else globally, else the built-in function of that
  name; an assignment binds in the function that it stands in (`Scope`).
* A statement ends by letting the next one run, by a jump out of the innermost loop or to its
  next round, or by leaving its function with a value (`Exit`).
* A loop over a value runs its body once for each item of a list, as it was when the loop began, or
  for each character of a text, and there is nothing else that it can run over.
* A function value is the definition that it comes from (`Definition`), with no bindings of its
  own.

Of all loops only `while` may go on for ever, so that only its rounds are counted: `fuel` bounds
the rounds of each one, and an evaluation that has too little of it gives `none`. Calls need no
such bound, as there is `room` for a given number of frames only.
-/

namespace Linewise

/-- A function definition of a program: what a script function is a value of. -/
structure Definition where
  line : Line
  name : String
  params : List String
  body : List (Stmt Int64)
  ident : Nat

instance : FunctionHandle Definition where
  name := Definition.name
  ident := Definition.ident

/-- What statements and expressions act on, wherever they stand. -/
structure World where
  globals : Bindings (Value Definition)
  /-- All texts printed so far, in order. -/
  printed : List String

/-- The local bindings of a function, `none` outside of all functions. -/
abbrev Scope := Option (Bindings (Value Definition))

/-- How a statement ends. -/
inductive Exit
  /-- The next statement follows. -/
  | through
  | breaks
  | continues
  | leaves (v : Value Definition)

/-- The value that a call has whose body ends in a given way. -/
def Exit.value : Exit → Value Definition
  | leaves v => v
  | through | breaks | continues => .none

/-- A computation on a world, which may fault or run out of fuel. -/
abbrev Eval := ExceptT Fault (StateT World Option)

namespace Eval

variable {α : Type}

/-- What a computation makes of a world: `none` when it runs out of fuel, else its value or its
    fault, and the world after it. -/
def outcome (x : Eval α) (w : World) : Option (Except Fault α × World) := x.run.run w

/-- A computation that has run out of fuel. -/
def exhausted : Eval α := fun _ => none

/-- The value of an operation, or its fault on a line. -/
def onLine (line : Line) : Except Cause α → Eval α
  | .ok a => pure a
  | .error cause => throw (.onLine cause line)

end Eval

/-! ## Names -/

/-- What a name means. -/
def Scope.lookup (scope : Scope) (name : String) (w : World) : Option (Value Definition) :=
  (scope.bind (·.find? name)).or
    ((w.globals.find? name).or ((Builtin.ofName? name).map .builtin))

/-- An assignment to a name. -/
def Scope.assign (scope : Scope) (name : String) (v : Value Definition) : Eval Scope :=
  match scope with
  | some locals => return some (locals.insert name v)
  | none => do
    modify fun w => { w with globals := w.globals.insert name v }
    return none

/-- The replacement of an item of the list that a name means, in the scope that binds the name. -/
def Scope.assignItem (scope : Scope) (line : Line) (name : String) (index item : Value Definition) :
    Eval Scope := do
  match scope.bind (·.find? name) with
  | some container =>
    let updated ← Eval.onLine line (container.replaceAt index item)
    return scope.map (·.insert name updated)
  | none =>
    match (← get).globals.find? name with
    | some container =>
      let updated ← Eval.onLine line (container.replaceAt index item)
      modify fun w => { w with globals := w.globals.insert name updated }
      return scope
    | none =>
      match Builtin.ofName? name with
      | some builtin =>
        let _ ← Eval.onLine line ((Value.builtin builtin).replaceAt index item)
        return scope
      | none => throw (.onLine (.unbound name) line)

/-! ## Expressions -/

/-- The value of the left operand is that of the whole expression. -/
def LogicOp.decidedBy : LogicOp → Value Definition → Bool
  | .and, v => !v.isTruthy
  | .or, v => v.isTruthy

/-- What a call on a line of a value with evaluated arguments gives. -/
abbrev Caller := Line → Value Definition → List (Value Definition) → Eval (Value Definition)

section Expressions

variable (call : Caller) (scope : Scope) (line : Line)

mutual

/-- The value of an expression on a line. -/
def Expr.eval : Expr Int64 → Eval (Value Definition)
  | .int n => return .int n
  | .float x => return .float x
  | .str s => return .str s
  | .bool b => return .bool b
  | .none => return .none
  | .list items => return .list (← Expr.evalAll items)
  | .ident name => do
    match scope.lookup name (← get) with
    | some v => return v
    | Option.none => throw (.onLine (.unbound name) line)
  | .subscript object index => do
    let v ← object.eval
    let i ← index.eval
    Eval.onLine line (v.subscript i)
  | .call callee args => do
    let f ← callee.eval
    let vs ← Expr.evalAll args
    call line f vs
  | .unary op operand => do
    let v ← operand.eval
    Eval.onLine line (Value.applyUnary op v)
  | .binary op left right => do
    let v ← left.eval
    let w ← right.eval
    Eval.onLine line (Value.applyBinary op v w)
  | .logic op left right => do
    let v ← left.eval
    if op.decidedBy v then return v else right.eval

/-- The values of expressions, one after the other. -/
def Expr.evalAll : List (Expr Int64) → Eval (List (Value Definition))
  | [] => return []
  | item :: rest => do
    let v ← item.eval
    let vs ← Expr.evalAll rest
    return v :: vs

end

end Expressions

/-! ## Statements -/

/-- At most `fuel` rounds of a loop that tests before each of them. -/
def repeatWhile (test : Scope → Eval Bool) (body : Scope → Eval (Exit × Scope)) :
    (fuel : Nat) → Scope → Eval (Exit × Scope)
  | 0, _ => Eval.exhausted
  | fuel + 1, scope => do
    if ← test scope then
      let (exit, scope) ← body scope
      match exit with
      | .through | .continues => repeatWhile test body fuel scope
      | .breaks => return (.through, scope)
      | .leaves v => return (.leaves v, scope)
    else return (.through, scope)

/-- One round of a loop for each of some items, with a name bound to the item. -/
def repeatFor (var : String) (body : Scope → Eval (Exit × Scope)) :
    (items : List (Value Definition)) → Scope → Eval (Exit × Scope)
  | [], scope => return (.through, scope)
  | item :: rest, scope => do
    let scope ← scope.assign var item
    let (exit, scope) ← body scope
    match exit with
    | .through | .continues => repeatFor var body rest scope
    | .breaks => return (.through, scope)
    | .leaves v => return (.leaves v, scope)

section Statements

variable (call : Caller) (fuel : Nat)

mutual

/-- What a statement does, with the local bindings after it. -/
def Stmt.exec : Stmt Int64 → Scope → Eval (Exit × Scope)
  | .expr line value, scope => do
    let _ ← value.eval call scope line
    return (.through, scope)
  | .assign line name value, scope => do
    let v ← value.eval call scope line
    return (.through, ← scope.assign name v)
  | .assignItem line name index value, scope => do
    let i ← index.eval call scope line
    let v ← value.eval call scope line
    return (.through, ← scope.assignItem line name i v)
  | .branch line test body otherwise, scope => do
    let v ← test.eval call scope line
    if v.isTruthy then Stmt.execAll body scope else otherwise.exec scope
  | .whileLoop line test body, scope =>
    repeatWhile (fun scope => return (← test.eval call scope line).isTruthy)
      (fun scope => Stmt.execAll body scope) fuel scope
  | .forLoop line var iterable body, scope => do
    match ← iterable.eval call scope line with
    | .list items => repeatFor var (fun scope => Stmt.execAll body scope) items scope
    | .str text =>
      let characters := text.toList.map fun c => Value.str (String.singleton c)
      repeatFor var (fun scope => Stmt.execAll body scope) characters scope
    | v => throw (.onLine (.notIterable v.kind) line)
  | .define line name params body ident, scope =>
    return (.through, ← scope.assign name (.function ⟨line, name, params, body, ident⟩))
  | .leave _ none, scope => return (.leaves .none, scope)
  | .leave line (some value), scope => do
    let v ← value.eval call scope line
    return (.leaves v, scope)
  | .breakLoop _, scope => return (.breaks, scope)
  | .continueLoop _, scope => return (.continues, scope)
  | .pass _, scope => return (.through, scope)

/-- What a conditional does after a test that failed. -/
def Otherwise.exec : Otherwise Int64 → Scope → Eval (Exit × Scope)
  | .nothing, scope => return (.through, scope)
  | .body body, scope => Stmt.execAll body scope
  | .arm line test body otherwise, scope => do
    let v ← test.eval call scope line
    if v.isTruthy then Stmt.execAll body scope else otherwise.exec scope

/-- What statements do one after the other, up to the first that does not let the next one run. -/
def Stmt.execAll : List (Stmt Int64) → Scope → Eval (Exit × Scope)
  | [], scope => return (.through, scope)
  | stmt :: rest, scope => do
    let (exit, scope) ← stmt.exec scope
    match exit with
    | .through => Stmt.execAll rest scope
    | exit => return (exit, scope)

end

end Statements

/-! ## Calls -/

/-- The call of a value on a line, where `run` is how the body of a definition runs. -/
def Value.apply (run : Definition → Bindings (Value Definition) → Eval (Value Definition)) :
    Caller :=
  fun line callee args =>
    match callee with
    | .builtin b => do
      let reply ← Eval.onLine line (b.call args)
      modify fun w => { w with printed := w.printed ++ reply.printed.toList }
      return reply.value
    | .function d =>
      if args.length ≠ d.params.length then
        throw (.onLine (.arity d.name d.params.length args.length) line)
      else run d (Bindings.ofList (d.params.zip args))
    | v => throw (.onLine (.notCallable v.kind) line)

/-- The call of a value where there is room for `room` more frames. -/
def callIn (fuel : Nat) : (room : Nat) → Caller
  | 0 => fun line => Value.apply (fun _ _ => throw (.onLine .tooDeepRecursion line)) line
  | room + 1 => Value.apply fun d locals => do
    let (exit, _) ← Stmt.execAll (callIn fuel room) fuel d.body (some locals)
    return exit.value

/-- What a program does that starts without any bindings, where at most `maxDepth` frames may be
    active: `none` when it runs out of fuel, else whether it ends with a fault, and the world at
    its end. -/
def Program.evaluate (maxDepth fuel : Nat) (program : Program) :
    Option (Except Fault Unit × World) :=
  (do let _ ← Stmt.execAll (callIn fuel (maxDepth - 1)) fuel program none : Eval Unit).outcome
    ⟨.empty, []⟩

end Linewise
