import Linewise.Controller.Surface

/-!
# Terminals

A surface of plain lines. An *interactive* terminal shows every change: rules between outputs, the
breakpoints, and the controls whenever other ones are enabled than before. A terminal without a
user shows the output, and the variables if it *traces*.
-/

namespace Linewise

/-- A terminal. -/
structure Terminal where
  source : String
  interactive : Bool
  /-- The variables are shown. -/
  traces : Bool
  /-- The controls that were shown last. -/
  controls : Option Controls
  /-- The lines that have been printed and not been taken yet. -/
  lines : Array String

namespace Terminal

/-- A terminal with a user. -/
def attended (source : String) : Terminal := ⟨source, true, true, none, #[]⟩

/-- A terminal without a user. -/
def unattended (source : String) (traces : Bool) : Terminal := ⟨source, false, traces, none, #[]⟩

/-! ## Lines -/

/-- The line between two outputs. -/
def ruler : String := String.ofList (List.replicate 40 '-')

/-- A variable and its value. -/
def binding (entry : String × String) : String := s!"{entry.1} = {entry.2}"

/-- The line that shows some variables. -/
def variablesLine (line : Line) (scope : Bindings String) : String :=
  let shown := match scope.entries with
    | [] => "(no variables)"
    | entries => ", ".intercalate (entries.map binding)
  s!"  [line {line}] {shown}"

/-- The line that shows some breakpoints. -/
def breakpointsLine (lines : List Line) : String :=
  let shown := match lines with
    | [] => "none"
    | lines => ", ".intercalate (lines.map toString)
  s!"breakpoints: {shown}"

/-- The words for the controls that are enabled. -/
def controlWords (controls : Controls) : List String :=
  [(controls.run, "run"), (controls.step, "step"), (controls.reset, "reset"),
    (controls.addBreakpoint, "break")].filterMap fun (enabled, word) =>
      if enabled then some word else none

/-- The line that shows some controls. -/
def controlsLine (controls : Controls) : String :=
  let shown := " ".intercalate (controlWords controls)
  s!"[available: {shown}]"

/-! ## Updates -/

/-- The terminal with one more line printed. -/
def print (line : String) (terminal : Terminal) : Terminal :=
  { terminal with lines := terminal.lines.push line }

/-- The terminal after a change. -/
def update (change : Update) (terminal : Terminal) : Terminal :=
  match change with
  | .clearOutput => if terminal.interactive then terminal.print ruler else terminal
  | .appendOutput text => terminal.print text
  | .showVariables line scope =>
    if terminal.traces then terminal.print (variablesLine line scope) else terminal
  | .clearVariables => terminal
  | .showBreakpoints lines =>
    if terminal.interactive then terminal.print (breakpointsLine lines) else terminal
  | .setControls controls =>
    if terminal.interactive && terminal.controls ≠ some controls then
      { terminal with controls := some controls }.print (controlsLine controls)
    else terminal

/-- The terminal as a surface. -/
def surface : Surface Terminal := ⟨source, update⟩

/-- The text of the lines that have been printed, and the terminal with all of them taken. -/
def flush (terminal : Terminal) : String × Terminal :=
  (terminal.lines.foldl (fun text line => text ++ line ++ "\n") "", { terminal with lines := #[] })

end Terminal

end Linewise
