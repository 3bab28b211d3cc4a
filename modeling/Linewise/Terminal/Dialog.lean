import Linewise.Controller.Debugger
import Linewise.Terminal.Basic
import Linewise.Terminal.Entry

/-!
# Dialogs

A debugger at a terminal with a user, who types a line whenever everything that came of the line
before has been shown.
-/

namespace Linewise

/-- A debugger at a terminal. -/
abbrev Dialog := Debugger Terminal

namespace Dialog

/-- The dialog with one more line printed. -/
def print (line : String) (dialog : Dialog) : Dialog :=
  { dialog with surface := dialog.surface.print line }

/-- The beginning of a dialog: the commands are listed before the first message is taken. -/
def new (crew : Crew) (breakpoints : Breakpoints) (source : String) : Dialog :=
  Dialog.print Entry.helpText (Debugger.new Terminal.surface crew breakpoints (.attended source))

/-- What has been printed, and the dialog with all of it taken. -/
def flush (dialog : Dialog) : String × Dialog :=
  let (text, surface) := dialog.surface.flush
  (text, { dialog with surface })

/-- What a line leads to, up to the next message of the worker; `none` when it ends the dialog. -/
def enter (dialog : Dialog) (line : String) : Option Dialog :=
  match Entry.read line with
  | .ok (.action .quit) => none
  | .ok (.action action) => some (Controller.act (Debugger.desk Terminal.surface) dialog action)
  | .ok .help => some (dialog.print Entry.helpText)
  | .ok .blank => some dialog
  | .error misentry => some (dialog.print s!"{misentry.message} ({Entry.helpText})")

end Dialog

end Linewise
