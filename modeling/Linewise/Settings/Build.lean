import Linewise.Settings.Basic
import Linewise.Settings.Environment
import Linewise.Settings.Toml

/-!
# Where settings come from

Every setting has a default, which a document overrides, which the environment overrides, which
the caller's own entries override. The document is a file: one that has been asked for, which has
to be there, or the one that is looked for otherwise, which may be missing.
-/

namespace Linewise.Settings

/-- The settings that a document, the environment and the caller give, in this order. -/
def build (document : Option String) (environment : Environment)
    (overrides : List (String × String)) : Except SettingsFault Settings := do
  let overrides ← overrides.mapM fun (key, value) =>
    match Path.ofText? key with
    | some path => .ok (path, Scalar.text value)
    | none => .error (.badKey key)
  let documented ← match document with
    | none => .ok []
    | some text =>
      match Toml.Document.read? text with
      | some document => .ok document.entries
      | none => .error .illFormedFile
  ofEntries (Entries.assignAll [] (documented ++ environment.entries ++ overrides))

/-- The variable that names the document. -/
def fileVariable : String := "STEPTRACE_CONFIG_PATH"

/-- The document that is looked for when none is named. -/
def usualFile : String := "steptrace"

/-- The file of variables. -/
def variablesFile : String := ".env"

/-- The first of a file and the one with the usual extension that can be read. -/
def findFile {m : Type → Type} [Monad m] (read? : String → m (Option String)) (name : String) :
    m (Option String) := do
  match ← read? name with
  | some text => return some text
  | none => if name.isEmpty then return none else read? (name ++ ".toml")

/-- The settings of a caller who may have asked for a document. Files are read by `read?`. -/
def load {m : Type → Type} [Monad m] (read? : String → m (Option String))
    (environment : Environment) (file : Option String) : m (Except SettingsFault Settings) := do
  let environment := (← read? variablesFile).elim environment environment.addFile
  match file.orElse fun _ => environment.value? fileVariable with
  | some name =>
    match ← findFile read? name with
    | some text => return build (some text) environment []
    | none => return .error (.missingFile name)
  | none => return build (← findFile read? usualFile) environment []

end Linewise.Settings
