import Linewise.Settings.Entries
import Linewise.Text

/-!
# The environment

Variables of the environment speak about settings when their names begin with a given word, in
whatever case; two underscores stand for the dot of a path. A file of variables may add to them,
but changes none that is there.

The file holds a variable in each line: a name, an equals sign and a value, which is quoted or
ends at the first blank, and refers to other variables by a dollar sign. Reading it ends at the
first line that holds anything else.
-/

namespace Linewise

/-- The variables of the environment, in order. -/
abbrev Environment := List (String × String)

namespace Environment

/-- What the names of the variables about settings begin with. -/
def settingsMark : String := "steptrace_"

/-- The value of a variable. -/
def value? (environment : Environment) (name : String) : Option String :=
  (List.find? (fun entry => entry.1 = name) environment).map Prod.snd

/-- What a variable says about settings. -/
def entry? (named : String × String) : Option (Path × Scalar) :=
  let name := named.1.toLower
  if settingsMark.toList.isPrefixOf name.toList then
    let key := String.ofList (name.toList.drop settingsMark.length)
    some (Path.ofText (key.replace "__" "."), .ofVariable named.2)
  else none

/-- What the environment says about settings. -/
def entries (environment : Environment) : List (Path × Scalar) :=
  environment.filterMap entry?

/-! ## Files of variables -/

/-- How far the value of a variable has been read. -/
structure Reading where
  /-- The characters of the value so far, the last one first. -/
  value : List Char
  /-- The quote that has been opened. -/
  quote : Option Char
  /-- A backslash has been read. -/
  escaped : Bool
  /-- A blank has ended the value. -/
  ended : Bool
  /-- The name after a dollar sign, the last character first, and whether braces hold it. -/
  reference : Option (List Char × Bool)

namespace Reading

/-- Nothing has been read. -/
def start : Reading := ⟨[], none, false, false, none⟩

/-- The reading with one more character of the value. -/
def push (reading : Reading) (c : Char) : Reading := { reading with value := c :: reading.value }

/-- The reading after a reference whose end has been found. -/
def resolve (known : Environment) (reading : Reading) (name : List Char) : Reading :=
  let text := (known.value? (String.ofList name.reverse)).getD ""
  { reading with value := text.toList.reverse ++ reading.value, reference := none }

/-- The reading after a character of a reference. -/
def stepReference (known : Environment) (reading : Reading) (name : List Char) (braced : Bool)
    (c : Char) : Reading :=
  if c.isAlphanum then { reading with reference := some (c :: name, braced) }
  else if braced then
    if c = '\x7d' then reading.resolve known name
    else { reading with reference := some (c :: name, braced) }
  else if c = '\x7b' && name.isEmpty then { reading with reference := some ([], true) }
  else
    let reading := reading.resolve known name
    if c = '$' then { reading with reference := some ([], false) } else reading.push c

/-- The reading after a character, `none` when it cannot stand there. -/
def step (known : Environment) (reading : Reading) (c : Char) : Option Reading :=
  if reading.ended then if c = ' ' || c = '\t' then some reading else none
  else if reading.escaped then
    let reading := { reading with escaped := false }
    if c = 'n' then some (reading.push '\n')
    else if ['\\', '\'', '"', '$', ' '].contains c then some (reading.push c)
    else none
  else if reading.quote = some '\'' then
    some (if c = '\'' then { reading with quote := none } else reading.push c)
  else
    match reading.reference with
    | some (name, braced) => some (reading.stepReference known name braced c)
    | none =>
      if c = '$' then some { reading with reference := some ([], false) }
      else if c = '\\' then some { reading with escaped := true }
      else if reading.quote = some '"' then
        some (if c = '"' then { reading with quote := none } else reading.push c)
      else if c = '\'' || c = '"' then some { reading with quote := some c }
      else if c = ' ' || c = '\t' then some { reading with ended := true }
      else some (reading.push c)

/-- The reading after some characters, up to a comment. -/
def steps (known : Environment) : Reading → List Char → Option Reading
  | reading, [] => some reading
  | reading, c :: rest =>
    if reading.ended && c = '#' then some reading
    else (reading.step known c).bind fun reading => reading.steps known rest

/-- The value that has been read, if it is complete. -/
def finish (known : Environment) (reading : Reading) : Option String :=
  if reading.quote.isSome then none
  else
    match reading.reference with
    | some (_, true) => none
    | some (name, false) => some (String.ofList (reading.resolve known name).value.reverse)
    | none => some (String.ofList reading.value.reverse)

end Reading

/-- The value that stands behind an equals sign. -/
def readValue? (known : Environment) (cs : List Char) : Option String :=
  match cs.dropWhile Text.isBlank with
  | [] | '#' :: _ => some ""
  | cs => (Reading.start.steps known cs).bind (Reading.finish known)

/-- The name in front and what follows it and its blanks. -/
def readName? (cs : List Char) : Option (String × List Char) :=
  match cs with
  | [] => none
  | c :: _ =>
    if c.isAlpha || c = '_' then
      let name := cs.takeWhile fun c => c.isAlphanum || c = '_' || c = '.'
      some (String.ofList name, (cs.drop name.length).dropWhile Text.isBlank)
    else none

/-- The variable that a line holds, or nothing if it is blank; `none` when it holds anything
    else. The word `export` may stand in front of the name. -/
def readLine? (known : Environment) (line : String) : Option (Option (String × String)) :=
  match (Text.trim line).toList with
  | [] | '#' :: _ => some none
  | cs => do
    match ← readName? cs with
    | (name, '=' :: rest) => return some (name, ← readValue? known rest)
    | ("export", rest) =>
      match ← readName? rest with
      | (name, '=' :: rest) => return some (name, ← readValue? known rest)
      | _ => none
    | _ => none

/-- The environment with the variables of some lines. A variable that is there keeps its value. -/
def addLines : Environment → List String → Environment
  | environment, [] => environment
  | environment, line :: lines =>
    match readLine? environment line with
    | none => environment
    | some none => environment.addLines lines
    | some (some (name, value)) =>
      if (environment.value? name).isSome then environment.addLines lines
      else addLines (environment ++ [(name, value)]) lines

/-- The environment with the variables of a file. -/
def addFile (environment : Environment) (text : String) : Environment :=
  environment.addLines (text.splitOn "\n")

end Environment

end Linewise
