import Linewise.Bindings
import Linewise.Code.Basic

/-!
# The machine

All that a run consists of at one moment: a stack of frames, one for each call that has not
returned yet, and the bindings of the script itself. Nothing else is remembered between two
instructions, so a run can be left at any of them and taken up again.
-/

namespace Linewise

/-- A loop over items that is under way: how many of them have been taken, and those left. -/
structure OpenLoop where
  taken : Nat
  rest : List (Value Code)

/-- An activation of a code. Both stacks have their innermost part first. -/
structure Frame where
  code : Code
  /-- The number of the next instruction. -/
  next : Nat
  stack : List (Value Code)
  /-- The bindings of a function; those of a script are the global ones of the machine. -/
  locals : Bindings (Value Code)
  loops : List OpenLoop
  /-- The line of the statement that is being executed. -/
  line : Line

namespace Frame

/-- A frame that is about to run the first instruction of its code. -/
def enter (code : Code) (locals : Bindings (Value Code)) : Frame :=
  ⟨code, 0, [], locals, [], code.firstLine⟩

/-- The frame with one more value on its stack. -/
def push (frame : Frame) (v : Value Code) : Frame :=
  { frame with stack := v :: frame.stack }

/-- The frame with its next instruction elsewhere. -/
def jump (frame : Frame) (target : Nat) : Frame :=
  { frame with next := target }

end Frame

/-- The state of a run. The innermost frame stands first, the script's own one last. -/
structure Machine where
  frames : List Frame
  globals : Bindings (Value Code)
  /-- The most frames that there may be, the script's own one included. -/
  maxDepth : Nat

namespace Machine

/-- A machine that is about to run the first instruction of a script. -/
def start (code : Code) (maxDepth : Nat) : Machine :=
  ⟨[.enter code .empty], .empty, maxDepth⟩

end Machine

/-- What can be seen of a run when a statement is about to run. -/
structure FrameView where
  line : Line
  /-- The name of the code that the statement belongs to. -/
  function : String
  /-- The number of frames. -/
  depth : Nat
  /-- The bindings of the innermost frame's own scope. -/
  bindings : Bindings (Value Code)

/-- The innermost frame of a machine, seen on a given line. -/
def Machine.view (m : Machine) (line : Line) : FrameView :=
  match m.frames with
  | [] => ⟨line, Code.moduleName, 0, m.globals⟩
  | frame :: _ =>
    ⟨line, frame.code.name, m.frames.length,
      if frame.code.isModule then m.globals else frame.locals⟩

end Linewise
