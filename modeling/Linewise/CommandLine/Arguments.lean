import Linewise.Text

/-!
# Arguments

The words of a command line: what to do, with which script, and options, which may stand before or
behind the command where both know them. An option with a value takes it from its own word, behind
an equals sign, or from the next word, which must not look like an option itself. Behind two
hyphens all words are taken as they are.
-/

namespace Linewise

/-- What to do. -/
inductive Job
  /-- Debug a script at the terminal. -/
  | debug (file : String) (breakpoints : List Line)
  /-- Run a script through all breakpoints. -/
  | run (file : String) (breakpoints : List Line) (traces : Bool)
  /-- Print the settings. -/
  | config
  deriving DecidableEq

/-- A command line. -/
structure Invocation where
  /-- The document of settings that has been asked for. -/
  configFile : Option String
  logLevel : Option String
  job : Job
  deriving DecidableEq

namespace Invocation

/-- The options. -/
inductive Switch
  | config
  | logLevel
  | breakpoint
  | trace
  deriving DecidableEq

/-- What stands in front of the command, and the three commands. -/
inductive Part
  | front
  | debug
  | run
  | config
  deriving DecidableEq

/-- The option of a name, among those of a part. -/
def Part.switch? (part : Part) (name : String) : Option Switch :=
  match name, part with
  | "config", _ => some .config
  | "log-level", _ => some .logLevel
  | "break", .debug | "break", .run => some .breakpoint
  | "trace", .run => some .trace
  | _, _ => none

/-- The option of a letter, among those of a part. -/
def Part.letter? (part : Part) (letter : Char) : Option Switch :=
  if letter = 'b' then part.switch? "break" else none

/-- The command of a name. -/
def Part.ofName? : String → Option Part
  | "debug" => some debug
  | "run" => some run
  | "config" => some config
  | _ => none

/-- What the words of a part have said so far. -/
structure Gathered where
  configFile : Option String
  logLevel : Option String
  breakpoints : List Line
  traces : Bool
  files : List String

namespace Gathered

/-- No words have been read. -/
def start : Gathered := ⟨none, none, [], false, []⟩

/-- The line that a value of an option names, zero for no line. -/
def line? (value : String) : Option Line := do
  let n ← Numeral.int64? value
  if 0 ≤ n.toInt && n.toInt < UInt32.size then some (UInt32.ofNat n.toInt.toNat) else none

/-- What the words say with one more option and its value. Only breakpoints may be given twice. -/
def give (gathered : Gathered) (switch : Switch) (value : String) : Option Gathered :=
  match switch with
  | .config =>
    if gathered.configFile.isSome || value.isEmpty then none
    else some { gathered with configFile := some value }
  | .logLevel =>
    if gathered.logLevel.isSome then none else some { gathered with logLevel := some value }
  | .breakpoint =>
    (line? value).map fun line => { gathered with breakpoints := gathered.breakpoints ++ [line] }
  | .trace => none

/-- What the words say with the option that has no value. -/
def trace (gathered : Gathered) : Option Gathered :=
  if gathered.traces then none else some { gathered with traces := true }

/-- What the words say with one more file. -/
def addFile (gathered : Gathered) (file : String) : Gathered :=
  { gathered with files := gathered.files ++ [file] }

end Gathered

/-- A word as it is spelled. -/
inductive Spelling
  /-- Two hyphens. -/
  | rest
  /-- An option, and its value if it has one. -/
  | switch (switch : Switch) (value : Option String)
  | word (word : String)
  /-- An option that is not known. -/
  | stray

/-- The characters up to the first equals sign, and those behind it, if there is one. -/
def splitValue (cs : List Char) : String × Option String :=
  let name := cs.takeWhile (· ≠ '=')
  (String.ofList name,
    match cs.drop name.length with
    | [] => none
    | _ :: value => some (String.ofList value))

/-- The spelling of a word in a part. -/
def Part.spelling (part : Part) (word : String) : Spelling :=
  match word.toList with
  | ['-', '-'] => .rest
  | '-' :: '-' :: rest =>
    let (name, value) := splitValue rest
    match part.switch? name with
    | some switch => .switch switch value
    | none => .stray
  | ['-'] => .word word
  | '-' :: letter :: rest =>
    match part.letter? letter with
    | some switch =>
      .switch switch (match rest with
        | [] => none
        | '=' :: value => some (String.ofList value)
        | value => some (String.ofList value))
    | none => .stray
  | _ => .word word

/-- A word that can be the value of the option in front of it. -/
def isValue (word : String) : Bool :=
  match word.toList with
  | '-' :: _ :: _ => false
  | _ => true

/-- What the words of a part say, through the first word that is a command if there are any in
    the part; with that word and the words behind it. -/
def Part.gather (part : Part) : Gathered → List String → Option (Gathered × List String)
  | gathered, [] => some (gathered, [])
  | gathered, word :: words =>
    match part.spelling word with
    | .stray => none
    | .rest => some (words.foldl Gathered.addFile gathered, [])
    | .word word =>
      if part = .front then some (gathered, word :: words)
      else part.gather (gathered.addFile word) words
    | .switch .trace none => gathered.trace.bind fun gathered => part.gather gathered words
    | .switch switch (some value) =>
      (gathered.give switch value).bind fun gathered => part.gather gathered words
    | .switch switch none =>
      match words with
      | [] => none
      | value :: words =>
        if isValue value then
          (gathered.give switch value).bind fun gathered => part.gather gathered words
        else none

/-- What a command does with what its words say. -/
def Part.job? (part : Part) (gathered : Gathered) : Option Job :=
  match part, gathered.files with
  | .debug, [file] => if file.isEmpty then none else some (.debug file gathered.breakpoints)
  | .run, [file] =>
    if file.isEmpty then none else some (.run file gathered.breakpoints gathered.traces)
  | .config, [] => some .config
  | _, _ => none

/-- The command line that some words spell. An option behind the command overrides the same one in
    front of it. -/
def ofWords? (words : List String) : Option Invocation := do
  match ← Part.front.gather .start words with
  | (front, name :: words) =>
    let part ← Part.ofName? name
    let (gathered, _) ← part.gather .start words
    let job ← part.job? gathered
    return ⟨gathered.configFile <|> front.configFile, gathered.logLevel <|> front.logLevel, job⟩
  | (_, []) => none

end Invocation

end Linewise
