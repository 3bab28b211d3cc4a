import Linewise.Builtin.Call
import Linewise.Machine.Basic
import Linewise.Value.Arithmetic
import Linewise.Value.Subscript

/-!
# Steps of the machine

A step runs one instruction of the innermost frame. It leads to a new state, and it may print a
text, reach a line, end the run or end it with a fault. An instruction that faults has moved on
and taken its operands from the stack, and nothing else has changed.
-/

namespace Linewise.Machine

/-- What a step does, with the machine after it. -/
inductive Progress
  | next (m : Machine)
  /-- A text was printed. -/
  | printed (text : String) (m : Machine)
  /-- The statement of a line is about to run. -/
  | atLine (line : Line) (m : Machine)
  | finished (m : Machine)
  | faulted (fault : Fault) (m : Machine)

/-! ## Names -/

/-- Where a name is bound. -/
inductive Home
  | local
  | global
  | builtin
  deriving DecidableEq

/-- Where a name is bound and what to: locally in a function, else globally, else among the
    built-in functions. -/
def resolve? (m : Machine) (frame : Frame) (name : String) : Option (Home × Value Code) :=
  match if frame.code.isModule then none else frame.locals.find? name with
  | some v => some (.local, v)
  | none =>
    match m.globals.find? name with
    | some v => some (.global, v)
    | none => (Builtin.ofName? name).map fun b => (.builtin, .builtin b)

/-- The machine with `frame` as its innermost frame and a name bound to a value in a given
    place. -/
def bindAt (m : Machine) (frame : Frame) (callers : List Frame) (home : Home) (name : String)
    (v : Value Code) : Machine :=
  match home with
  | .local => { m with frames := { frame with locals := frame.locals.insert name v } :: callers }
  | .global => { m with frames := frame :: callers, globals := m.globals.insert name v }
  | .builtin => { m with frames := frame :: callers }

/-- The scope that an assignment in a frame binds in. -/
def assignmentHome (frame : Frame) : Home :=
  if frame.code.isModule then .global else .local

/-! ## Instructions -/

section Instructions

variable (m : Machine) (frame : Frame) (callers : List Frame)

/-- The machine with `frame` as its innermost frame. -/
def withFrame : Machine := { m with frames := frame :: callers }

/-- A fault of an instruction, which leaves the given operands on the stack. -/
def failWith (line : Line) (stack : List (Value Code)) (cause : Cause) : Progress :=
  .faulted (.onLine cause line) (m.withFrame { frame with stack } callers)

/-- A result of an instruction, pushed onto the given operands, or its fault. -/
def pushResult (line : Line) (stack : List (Value Code)) : Except Cause (Value Code) → Progress
  | .ok v => .next (m.withFrame { frame with stack := v :: stack } callers)
  | .error cause => m.failWith frame callers line stack cause

/-- The call of a function with evaluated arguments, or the fault that it must not be called. -/
def enter (line : Line) (stack : List (Value Code)) (code : Code) (args : List (Value Code)) :
    Progress :=
  if args.length ≠ code.params.length then
    m.failWith frame callers line stack (.arity code.name code.params.length args.length)
  else if callers.length + 1 ≥ m.maxDepth then
    m.failWith frame callers line stack .tooDeepRecursion
  else
    let locals := Bindings.ofList (code.params.zip args)
    .next { m with frames := .enter code locals :: { frame with stack } :: callers }

/-- The call of a value with evaluated arguments. -/
def call (line : Line) (stack : List (Value Code)) (callee : Value Code)
    (args : List (Value Code)) : Progress :=
  match callee with
  | .builtin b =>
    match b.call args with
    | .error cause => m.failWith frame callers line stack cause
    | .ok reply =>
      let m := m.withFrame { frame with stack := reply.value :: stack } callers
      match reply.printed with
      | some text => .printed text m
      | none => .next m
  | .function code => m.enter frame callers line stack code args
  | v => m.failWith frame callers line stack (.notCallable v.kind)

/-- A machine and its innermost frame without the binding of a name in a given place. -/
def takeOut (home : Home) (name : String) : Machine × Frame :=
  match home with
  | .local => (m, { frame with locals := frame.locals.erase name })
  | .global => ({ m with globals := m.globals.erase name }, frame)
  | .builtin => (m, frame)

/-- The replacement of an item of the list that a name is bound to. The list is taken out of its
    scope, which gets the new list, or else the old one together with the fault. -/
def storeItem (line : Line) (stack : List (Value Code)) (name : String)
    (index item : Value Code) : Progress :=
  match m.resolve? frame name with
  | none => m.failWith frame callers line stack (.unbound name)
  | some (home, container) =>
    let (m, frame) := m.takeOut frame home name
    let putBack := m.bindAt { frame with stack } callers home name
    match container.replaceAt index item with
    | .error cause => .faulted (.onLine cause line) (putBack container)
    | .ok updated => .next (putBack updated)

/-- What is done with the topmost value and those under it, or the fault that there is none. -/
def pop (line : Line) (use : Value Code → List (Value Code) → Progress) : Progress :=
  match frame.stack with
  | v :: stack => use v stack
  | [] => m.failWith frame callers line [] (.breakdown .stackUnderflow)

/-- What is done with the value under the topmost one, the topmost one and those under them, or
    the fault that there are not as many. -/
def popTwo (line : Line) (use : Value Code → Value Code → List (Value Code) → Progress) :
    Progress :=
  match frame.stack with
  | w :: v :: stack => use v w stack
  | _ => m.failWith frame callers line [] (.breakdown .stackUnderflow)

/-- What is done with the `count` topmost values, the lowest of them first, and those under them,
    or the fault that there are not as many. -/
def popMany (line : Line) (count : Nat)
    (use : List (Value Code) → List (Value Code) → Progress) : Progress :=
  if count ≤ frame.stack.length then
    use (frame.stack.take count).reverse (frame.stack.drop count)
  else m.failWith frame callers line frame.stack (.breakdown .stackUnderflow)

/-- The next item of the innermost loop, or the end of that loop. -/
def nextItem (line : Line) (exit : Nat) : Progress :=
  match frame.loops with
  | [] => m.failWith frame callers line frame.stack (.breakdown .noIterator)
  | ⟨_, []⟩ :: outer => .next (m.withFrame { frame with loops := outer, next := exit } callers)
  | ⟨taken, item :: rest⟩ :: outer =>
    .next (m.withFrame { frame.push item with loops := ⟨taken + 1, rest⟩ :: outer } callers)

/-- The return of a value to the frame that called, or the end of the script. -/
def leave (v : Value Code) : Progress :=
  match callers with
  | [] => .finished { m with frames := [] }
  | caller :: outer => .next { m with frames := caller.push v :: outer }

/-- The instruction of a frame that has moved on past it, where `line` is the line that a fault
    arises on. -/
def execute (line : Line) (instr : Instr) : Progress :=
  let stay (frame : Frame) : Progress := .next (m.withFrame frame callers)
  let fail := m.failWith frame callers line
  let result := m.pushResult frame callers line
  match instr with
  | .line reached => .atLine reached (m.withFrame { frame with line := reached } callers)
  | .const v => stay (frame.push v)
  | .load name =>
    match m.resolve? frame name with
    | some (_, v) => stay (frame.push v)
    | none => fail frame.stack (.unbound name)
  | .store name => m.pop frame callers line fun v stack =>
    .next (m.bindAt { frame with stack } callers (assignmentHome frame) name v)
  | .storeIndex name => m.popTwo frame callers line fun index item stack =>
    m.storeItem frame callers line stack name index item
  | .buildList count => m.popMany frame callers line count fun items stack =>
    stay { frame with stack := .list items :: stack }
  | .index => m.popTwo frame callers line fun object index stack =>
    result stack (object.subscript index)
  | .unary op => m.pop frame callers line fun operand stack =>
    result stack (Value.applyUnary op operand)
  | .binary op => m.popTwo frame callers line fun left right stack =>
    result stack (Value.applyBinary op left right)
  | .jump target => stay (frame.jump target)
  | .jumpIfFalse target => m.pop frame callers line fun v stack =>
    stay { frame with stack, next := if v.isTruthy then frame.next else target }
  | .jumpIfFalseOrPop target => m.pop frame callers line fun v stack =>
    stay (if v.isTruthy then { frame with stack } else frame.jump target)
  | .jumpIfTrueOrPop target => m.pop frame callers line fun v stack =>
    stay (if v.isTruthy then frame.jump target else { frame with stack })
  | .call argc => m.popMany frame callers line argc fun args stack =>
    match stack with
    | callee :: stack => m.call frame callers line stack callee args
    | [] => fail [] (.breakdown .stackUnderflow)
  | .leave => m.pop frame callers line fun v _ => m.leave callers v
  | .pop => m.pop frame callers line fun _ stack => stay { frame with stack }
  | .makeFunction code => stay (frame.push (.function code))
  | .iterStart => m.pop frame callers line fun v stack =>
    match v.iterate with
    | .ok items => stay { frame with stack, loops := ⟨0, items⟩ :: frame.loops }
    | .error cause => fail stack cause
  | .iterNext exit => m.nextItem frame callers line exit
  | .iterDrop => stay { frame with loops := frame.loops.tail }

end Instructions

/-- One instruction of the innermost frame. A script ends after its last instruction; a function
    has to be left before that. -/
def step (m : Machine) : Progress :=
  match m.frames with
  | [] => .finished m
  | frame :: callers =>
    match frame.code.instrs[frame.next]? with
    | some instr => m.execute { frame with next := frame.next + 1 } callers frame.line instr
    | none =>
      if frame.code.isModule then .finished m
      else .faulted (.onLine (.breakdown .fellOffFunction) frame.line) m

end Linewise.Machine
