import Linewise.Text

/-!
# Log filters

A log filter says which messages are logged: directives with commas between them, each a level, a
target, or a target and its level; a target may end with a span in brackets, which may name fields
in braces. What a filter lets through is not decided here, only whether it is one.
-/

namespace Linewise

/-- Why a text is not a log filter. -/
inductive FilterFault
  | badLevel
  | badDirective
  deriving DecidableEq

/-- The text of a fault. -/
def FilterFault.message : FilterFault → String
  | badLevel =>
    "error parsing level filter: expected one of \"off\", \"error\", \"warn\", \"info\", \"debug\", " ++
      "\"trace\", or a number 0-5"
  | badDirective => "invalid filter directive"

namespace LogFilter

/-- A name or a number of a level. -/
def isLevel (word : String) : Bool :=
  ["", "off", "error", "warn", "info", "debug", "trace"].contains word.toLower ||
    (Numeral.unsigned? 6 word).isSome

/-- How far a directive has been read. -/
inductive Progress
  | start
  /-- In a word that is a level or a target. -/
  | word
  /-- In the name of a span. -/
  | span
  /-- In the name of a field; nothing of it has been read yet. -/
  | fieldStart
  | field
  /-- Behind the last field. -/
  | fields
  /-- Behind a span. -/
  | target
  /-- In a level behind an equals sign, with its characters so far, the last one first. -/
  | level (read : List Char)

/-- A character that a word may begin with. All characters outside of ASCII may. -/
def isWordStart (c : Char) : Bool :=
  c.isAlphanum || c = '-' || c = ':' || c = '_' || 128 ≤ c.toNat

/-- How far a directive has been read after one more character. -/
def step (progress : Progress) (c : Char) : Except FilterFault Progress :=
  match progress with
  | .start =>
    if c = '[' then .ok .span else if isWordStart c then .ok .word else .error .badDirective
  | .word => .ok (if c = '=' then .level [] else if c = '[' then .span else .word)
  | .span => .ok (if c = ']' then .target else if c = '\x7b' then .fieldStart else .span)
  | .fieldStart => if c = '\x7d' then .error .badDirective else .ok .field
  | .field => .ok (if c = '\x7d' then .fields else .field)
  | .fields => if c = ']' then .ok .target else .error .badDirective
  | .target => if c = '=' then .ok (.level []) else .error .badDirective
  | .level read => .ok (.level (c :: read))

/-- A directive is complete, or why it is not. With blanks around it, it can have no level. -/
def finish (padded : Bool) : Progress → Except FilterFault Unit
  | .word | .target => .ok ()
  | .level read =>
    if !padded && isLevel (String.ofList read.reverse) then .ok () else .error .badLevel
  | .start | .span | .fieldStart | .field | .fields => .error .badDirective

/-- A text is a directive, or why it is not. -/
def checkDirective (text : String) : Except FilterFault Unit := do
  let bare := Text.trim text
  finish (bare ≠ text) (← bare.toList.foldlM step .start)

/-- A text is a log filter, or why it is not. -/
def check (text : String) : Except FilterFault Unit :=
  ((text.splitOn ",").filter fun directive => !directive.isEmpty).forM checkDirective

end LogFilter

end Linewise
