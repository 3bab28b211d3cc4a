import Linewise.Syntax.Parse

/-!
# Limits

The limits that a run is under. Limits that leave no room to run anything, or that let scripts
nest more deeply than reading them can bear, are refused; of several violations the first one
counts, in the order of the fields.
-/

namespace Linewise

/-- The limits of the interpreter. -/
structure Limits where
  /-- The most frames that there may be. -/
  maxCallDepth : Nat
  /-- The most bindings that a snapshot may hold. -/
  maxSnapshotVars : Nat
  /-- The most characters of a value in a snapshot. -/
  maxValueLen : Nat
  /-- The most brackets and prefix operators that may be open at once. -/
  maxNestingDepth : Nat
  deriving DecidableEq

/-- A limit that is out of its range. -/
inductive Violation
  | callDepth
  | snapshotVars
  | valueLen
  | nestingDepth
  deriving DecidableEq

/-- The text of a violation. -/
def Violation.message : Violation → String
  | callDepth => "interpreter.max_call_depth must be at least 1"
  | snapshotVars => "interpreter.max_snapshot_vars must be at least 1"
  | valueLen => "interpreter.max_value_len must be at least 4"
  | nestingDepth => "interpreter.max_nesting_depth must be between 1 and 32"

namespace Limits

/-- The limits that hold unless said otherwise. -/
def default : Limits := ⟨200, 512, 240, Program.defaultNesting⟩

/-- The first violation among some limits. -/
def violation? (limits : Limits) : Option Violation :=
  if limits.maxCallDepth = 0 then some .callDepth
  else if limits.maxSnapshotVars = 0 then some .snapshotVars
  else if limits.maxValueLen < 4 then some .valueLen
  else if limits.maxNestingDepth < 1 || 32 < limits.maxNestingDepth then some .nestingDepth
  else none

theorem default_valid : default.violation? = none := rfl

end Limits

end Linewise
