import Linewise.Bindings
import Linewise.Text

/-!
# Surfaces

A surface is what the user sees of the debugger: the log of the output, the variables at the last
line, the breakpoints and the controls. The controller never draws anything. It tells its surface
of each change as an `Update`, in the order in which the changes come about, and takes from it the
text in the editor. What an update does to the four panels is the business of `Panels.update`;
how it looks is up to the surface.
-/

namespace Linewise

/-- Which of the controls are enabled. -/
structure Controls where
  run : Bool
  step : Bool
  reset : Bool
  addBreakpoint : Bool
  deriving DecidableEq

/-- A change to what the user sees. -/
inductive Update
  | clearOutput
  | appendOutput (text : String)
  /-- The variables before a line, in place of any others. -/
  | showVariables (line : Line) (scope : Bindings String)
  | clearVariables
  | showBreakpoints (lines : List Line)
  | setControls (controls : Controls)
  deriving DecidableEq

/-- A surface with states from `υ`. -/
structure Surface (υ : Type) where
  /-- The text in the editor. -/
  source : υ → String
  update : Update → υ → υ

/-- What the panels of a surface show. -/
structure Panels where
  /-- The chunks of the output, in order. -/
  output : Array String
  scope : Option (Line × Bindings String)
  breakpoints : List Line
  controls : Controls
  deriving DecidableEq

namespace Panels

/-- Panels that show nothing. -/
def blank : Panels := ⟨#[], none, [], ⟨false, false, false, false⟩⟩

/-- The panels after a change. -/
def update (panels : Panels) : Update → Panels
  | .clearOutput => { panels with output := #[] }
  | .appendOutput text => { panels with output := panels.output.push text }
  | .showVariables line scope => { panels with scope := some (line, scope) }
  | .clearVariables => { panels with scope := none }
  | .showBreakpoints lines => { panels with breakpoints := lines }
  | .setControls controls => { panels with controls }

end Panels

/-- A surface that draws nothing and forgets nothing. -/
structure Recording where
  source : String
  panels : Panels
  /-- All updates so far. -/
  updates : Array Update

namespace Recording

/-- A recording that has not begun. -/
def new (source : String) : Recording := ⟨source, .blank, #[]⟩

/-- The recording as a surface. -/
def surface : Surface Recording where
  source := Recording.source
  update change recording :=
    { recording with
      panels := recording.panels.update change
      updates := recording.updates.push change }

end Recording

end Linewise
