import Linewise.Settings.Entries
import Linewise.Settings.Limits

/-!
# Settings

The limits of the interpreter and the time before it is loaded. Settings are taken from entries,
in which those with names of no setting do not count, and are written as a document with a section
for the interpreter and one for the session.
-/

namespace Linewise

/-- The settings of the debugger. -/
structure Settings where
  limits : Limits
  /-- The milliseconds that a session waits before it loads the interpreter. -/
  bootstrapDelay : Nat
  deriving DecidableEq

/-- Why there are no settings. -/
inductive SettingsFault
  | missingFile (file : String)
  | illFormedFile
  | badKey (key : String)
  | noCount (path : Path)
  | invalid (violation : Violation)
  deriving DecidableEq

namespace SettingsFault

/-- The text of a fault that comes from a source. -/
def detail (text : String) : String := s!"failed to load configuration: {text}"

/-- The text of a fault. -/
def message : SettingsFault → String
  | missingFile file => detail s!"configuration file \"{file}\" not found"
  | illFormedFile => detail "the file is not a document"
  | badKey key => detail s!"no key: \"{key}\""
  | noCount path =>
    let key := ".".intercalate path
    detail s!"not a count: \"{key}\""
  | invalid violation => s!"invalid configuration: {violation.message}"

end SettingsFault

namespace Settings

/-- The settings that hold unless said otherwise. -/
def default : Settings := ⟨.default, 0⟩

/-- The section of the interpreter's limits. -/
def interpreterSection : String := "interpreter"

/-- The section of the session. -/
def sessionSection : String := "session"

/-- The names of settings and the numbers, section by section. -/
def fields (settings : Settings) : List (String × List (String × Nat)) :=
  [(interpreterSection,
      [("max_call_depth", settings.limits.maxCallDepth),
        ("max_snapshot_vars", settings.limits.maxSnapshotVars),
        ("max_value_len", settings.limits.maxValueLen),
        ("max_nesting_depth", settings.limits.maxNestingDepth)]),
    (sessionSection, [("bootstrap_delay_ms", settings.bootstrapDelay)])]

/-- The count that entries give a setting. A value in the place of the section is a fault, and so
    are entries below the setting. -/
def count (entries : Entries) (top name : String) (otherwise : Nat) :
    Except SettingsFault Nat :=
  if (entries.find? [top]).isSome then .error (.noCount [top])
  else
    match entries.find? [top, name] with
    | some value =>
      match value.count? with
      | some n => .ok n
      | none => .error (.noCount [top, name])
    | none =>
      if entries.reaches [top, name] then .error (.noCount [top, name]) else .ok otherwise

/-- The settings of some entries. -/
def ofEntries (entries : Entries) : Except SettingsFault Settings := do
  let d := default
  let limit := count entries interpreterSection
  let settings : Settings :=
    { limits :=
        { maxCallDepth := ← limit "max_call_depth" d.limits.maxCallDepth
          maxSnapshotVars := ← limit "max_snapshot_vars" d.limits.maxSnapshotVars
          maxValueLen := ← limit "max_value_len" d.limits.maxValueLen
          maxNestingDepth := ← limit "max_nesting_depth" d.limits.maxNestingDepth }
      bootstrapDelay := ← count entries sessionSection "bootstrap_delay_ms" d.bootstrapDelay }
  match settings.limits.violation? with
  | some violation => .error (.invalid violation)
  | none => .ok settings

/-! ## Written settings -/

/-- The greatest number that a document can hold. -/
def greatest : Nat := 0x7FFFFFFFFFFFFFFF

/-- The line of a setting. -/
def line (field : String × Nat) : String := s!"{field.1} = {field.2}\n"

/-- The lines of a section. -/
def sectionText (part : String × List (String × Nat)) : String :=
  s!"[{part.1}]\n" ++ "".intercalate (part.2.map line)

/-- The document of some settings, `none` when one of their numbers is too great for it. -/
def render? (settings : Settings) : Option String :=
  if settings.fields.all fun part => part.2.all fun field => field.2 ≤ greatest then
    some ("\n".intercalate (settings.fields.map sectionText))
  else none

end Settings

end Linewise
