import Linewise.Bindings
import Linewise.Text
import Linewise.Wire.SessionId

/-!
# Messages

The controller sends commands to a session, and the session answers with events, each in an
envelope that names the session. A message is an object with a tag that says which one it is, and
its fields; a reader takes the list of the tag and the fields as well.

Readers are lenient about what they do not know: members with other names are left out of account,
in whatever order they come. Everything else has to be there, exactly once and of the right sort.
-/

namespace Linewise.Wire

/-- What the controller asks of a session. -/
inductive Command
  /-- Load the interpreter, unless it has been loaded. -/
  | load
  /-- Begin a new run of a script, in place of any other one. -/
  | startExecution (source : String)
  /-- Go on with the run up to its next line. -/
  | continueExecution
  deriving DecidableEq

/-- What a session tells the controller. -/
inductive Event
  /-- The interpreter has been loaded. -/
  | ready
  | loadFailed (message : String)
  | output (text : String)
  /-- A line is about to run, with these variables in scope. -/
  | lineExecuted (line : Line) (scope : Bindings String)
  | programEnd
  | error (message : String)
  deriving DecidableEq

/-- An event and the session that it comes from. -/
structure Envelope where
  session : SessionId
  event : Event
  deriving DecidableEq

/-- A text is not a message of the kind that was expected. -/
structure Malformed where
  expected : String
  deriving DecidableEq

/-- The text of the complaint about a malformed message. -/
def Malformed.message (malformed : Malformed) : String :=
  s!"malformed message: not {malformed.expected}"

/-! ## Fields -/

/-- The fields of a message: by their names, or in their order. -/
inductive Fields
  | named (members : List (String × Json))
  | listed (items : List Json)

namespace Fields

/-- The members of an object, `none` when one of their names is no text. -/
def members? (members : List (Option String × Json)) : Option (List (String × Json)) :=
  members.mapM fun (name, value) => name.map fun name => (name, value)

/-- The fields of an object or a list. -/
def ofJson? : Json → Option Fields
  | .object members => (members? members).map named
  | .array items => some (listed items)
  | _ => none

/-- The value of the only member of a given name. -/
def member? (members : List (String × Json)) (name : String) : Option Json :=
  match members.filter fun member => member.1 = name with
  | [(_, value)] => some value
  | _ => none

/-- The values of the fields of given names, which are all the fields of a list. -/
def values? (names : List String) : Fields → Option (List Json)
  | named members => names.mapM (member? members)
  | listed items => if items.length = names.length then some items else none

/-- The tag of a message and its other fields. -/
def tagged? (tag : String) : Fields → Option (String × Fields)
  | named members =>
    match member? members tag with
    | some (.string (some name)) => some (name, named (members.filter fun m => m.1 ≠ tag))
    | _ => none
  | listed (.string (some name) :: items) => some (name, listed items)
  | listed _ => none

end Fields

/-- The text that a tree stands for. -/
def text? : Json → Option String
  | .string text => text
  | _ => none

/-- The line number that a tree stands for. -/
def line? : Json → Option Line
  | .number n =>
    if n.integral && !n.negative && n.digits < UInt32.size then some (UInt32.ofNat n.digits)
    else none
  | _ => none

/-- The texts by name that a tree stands for, of which a later one wins. -/
def texts? : Json → Option (Bindings String)
  | .object members => do
    let members ← Fields.members? members
    return .ofList (← members.mapM fun (name, value) => (text? value).map fun text => (name, text))
  | _ => none

/-- The tree of a tagged message that a text spells, if it is one that a reader may see. -/
def readTagged? (tag text : String) : Option (String × Fields) := do
  let json ← Json.read? text
  if json.isSound && json.depth ≤ Json.deepest then (← Fields.ofJson? json).tagged? tag else none

/-! ## Commands -/

namespace Command

/-- The tag of a command. -/
def name : Command → String
  | load => "initialize"
  | startExecution _ => "start_execution"
  | continueExecution => "continue_execution"

/-- The tree of a command. -/
def toJson (command : Command) : Json :=
  .ofMembers (("command", .ofText command.name) :: match command with
    | startExecution source => [("source", .ofText source)]
    | load | continueExecution => [])

/-- The text of a command. -/
def encode (command : Command) : String := command.toJson.render

/-- The command of a tag and other fields. -/
def ofFields? (tag : String) (fields : Fields) : Option Command :=
  match tag with
  | "initialize" => (fields.values? []).map fun _ => load
  | "start_execution" =>
    match fields.values? ["source"] with
    | some [source] => (text? source).map startExecution
    | _ => none
  | "continue_execution" => (fields.values? []).map fun _ => continueExecution
  | _ => none

/-- The command that a text spells. -/
def decode (text : String) : Except Malformed Command :=
  match (readTagged? "command" text).bind fun (tag, fields) => ofFields? tag fields with
  | some command => .ok command
  | none => .error ⟨"a command"⟩

end Command

/-! ## Events -/

namespace Event

/-- The tag of an event. -/
def name : Event → String
  | ready => "ready"
  | loadFailed _ => "load_failed"
  | output _ => "output"
  | lineExecuted .. => "line_executed"
  | programEnd => "program_end"
  | error _ => "error"

/-- The event answers a request to start or to continue a run. -/
def isResponse : Event → Bool
  | lineExecuted .. | programEnd | error _ => true
  | ready | loadFailed _ | output _ => false

/-- The tree of an event. -/
def toJson (event : Event) : Json :=
  .ofMembers (("type", .ofText event.name) :: match event with
    | loadFailed message => [("message", .ofText message)]
    | output text => [("text", .ofText text)]
    | lineExecuted line scope =>
      [("line", .ofNat line.toNat), ("variables", .ofMembers (scope.map Json.ofText).entries)]
    | error message => [("message", .ofText message)]
    | ready | programEnd => [])

/-- The text of an event. -/
def encode (event : Event) : String := event.toJson.render

/-- The event of a tag and other fields. -/
def ofFields? (tag : String) (fields : Fields) : Option Event :=
  match tag with
  | "ready" => (fields.values? []).map fun _ => ready
  | "load_failed" =>
    match fields.values? ["message"] with
    | some [message] => (text? message).map loadFailed
    | _ => none
  | "output" =>
    match fields.values? ["text"] with
    | some [text] => (text? text).map output
    | _ => none
  | "line_executed" =>
    match fields.values? ["line", "variables"] with
    | some [line, scope] => do return lineExecuted (← line? line) (← texts? scope)
    | _ => none
  | "program_end" => (fields.values? []).map fun _ => programEnd
  | "error" =>
    match fields.values? ["message"] with
    | some [message] => (text? message).map error
    | _ => none
  | _ => none

/-- The event that a tree stands for. -/
def ofJson? (json : Json) : Option Event := do
  let (tag, fields) ← (← Fields.ofJson? json).tagged? "type"
  ofFields? tag fields

/-- The event that a text spells. -/
def decode (text : String) : Except Malformed Event :=
  match (readTagged? "type" text).bind fun (tag, fields) => ofFields? tag fields with
  | some event => .ok event
  | none => .error ⟨"an event"⟩

end Event

/-! ## Envelopes -/

namespace Envelope

/-- The tree of an envelope. -/
def toJson (envelope : Envelope) : Json :=
  .ofMembers [("session", .ofText envelope.session.text), ("event", envelope.event.toJson)]

/-- The text of an envelope. -/
def encode (envelope : Envelope) : String := envelope.toJson.render

/-- The envelope that a tree stands for. Its event nests one level less deeply than a message may,
    and what stands beside its two fields does not count. -/
def ofJson? (json : Json) : Option Envelope := do
  match (← Fields.ofJson? json).values? ["session", "event"] with
  | some [session, event] =>
    let session ← (text? session).bind SessionId.ofText?
    if event.isSound && event.depth < Json.deepest then return ⟨session, ← Event.ofJson? event⟩
    else none
  | _ => none

/-- The envelope that a text spells. -/
def decode (text : String) : Except Malformed Envelope :=
  match (Json.read? text).bind ofJson? with
  | some envelope => .ok envelope
  | none => .error ⟨"an event in an envelope"⟩

end Envelope

end Linewise.Wire
