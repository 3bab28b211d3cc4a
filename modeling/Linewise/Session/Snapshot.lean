import Linewise.Machine.Execution
import Linewise.Settings.Limits

/-!
# Snapshots

What a session reports of a line is a snapshot: the texts of the values that are bound in the
innermost scope. A text that is too long is cut, and a scope with too many bindings cannot be
reported at all.
-/

namespace Linewise

/-- The limits of snapshots. -/
structure SnapshotLimits where
  /-- The most bindings that a snapshot may hold. -/
  maxVars : Nat
  /-- The most characters of a value. -/
  maxValueLen : Nat
  deriving DecidableEq

namespace SnapshotLimits

/-- The part of some limits that is about snapshots. -/
def ofLimits (limits : Limits) : SnapshotLimits := ⟨limits.maxSnapshotVars, limits.maxValueLen⟩

end SnapshotLimits

namespace Snapshot

/-- What marks a text that was cut. -/
def ellipsis : List Char := ['.', '.', '.']

/-- A text of at most `most` characters, of which the last three mark it when it had to be cut. -/
def truncate (most : Nat) (text : String) : String :=
  let chars := text.toList
  if chars.length ≤ most then text
  else String.ofList (chars.take (most - ellipsis.length) ++ ellipsis)

/-- The text of a value in a snapshot. -/
def display (most : Nat) (v : Value Code) : String := truncate most v.display

/-- The snapshot of what is seen of a run, or why there is none. -/
def capture (limits : SnapshotLimits) (view : FrameView) :
    Except TraceFailure (Bindings String) :=
  if view.bindings.size > limits.maxVars then
    .error ⟨s!"{view.bindings.size} variables in scope at line {view.line} " ++
      s!"exceeds the snapshot limit of {limits.maxVars}"⟩
  else .ok (view.bindings.map (display limits.maxValueLen))

end Snapshot

end Linewise
