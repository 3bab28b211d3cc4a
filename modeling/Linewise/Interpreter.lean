import Linewise.Code.Emission
import Linewise.Machine.Execution
import Linewise.Settings.Limits

/-!
# The interpreter

An interpreter is loaded once, under limits that are checked then, and prepares scripts for
execution after that. A script that is no program is refused with a fault.
-/

namespace Linewise

/-- Why an interpreter could not be loaded. -/
inductive LoadFault
  | invalid (violation : Violation)
  | failed (reason : String)
  deriving DecidableEq

/-- The text of a load fault. -/
def LoadFault.message : LoadFault → String
  | invalid violation => s!"invalid interpreter configuration: {violation.message}"
  | failed reason => s!"interpreter bootstrap failed: {reason}"

/-- The fault that refuses a text which is not a script. -/
def SyntaxFault.fault : SyntaxFault → Fault
  | unexpected line _ => .onLine (.refused .invalidSyntax) line
  | ill located => .onLine (.refused (.ill located.complaint.message)) located.line
  | tooDeep line _ => .onLine (.refused .tooDeep) line

/-- A loaded interpreter. -/
structure Interpreter where
  maxCallDepth : Nat
  maxNestingDepth : Nat
  deriving DecidableEq

namespace Interpreter

/-- The interpreter under given limits. -/
def load (limits : Limits) : Except LoadFault Interpreter :=
  match limits.violation? with
  | some violation => .error (.invalid violation)
  | none => .ok ⟨limits.maxCallDepth, limits.maxNestingDepth⟩

/-- The code of a script. -/
def compile (interpreter : Interpreter) (source : String) : Except Fault Code :=
  match Program.parse interpreter.maxNestingDepth source with
  | .error fault => .error fault.fault
  | .ok program => program.compile

/-- A traced execution of a script that has not begun. -/
def prepare (interpreter : Interpreter) (source : String) : Except Fault Execution :=
  (interpreter.compile source).map fun code => .start code interpreter.maxCallDepth true

end Interpreter

end Linewise
