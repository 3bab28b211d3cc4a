import Linewise.Controller.Basic

/-!
# Entries

What the user of a terminal types: one line, whose first word says what to do and whose second one,
with some words, to what.
-/

namespace Linewise

/-- A line that asks for something, or for nothing. -/
inductive Entry
  | action (action : Action)
  | help
  | blank
  deriving DecidableEq

/-- Why a line asks for nothing that can be done. -/
inductive Misentry
  | unknown (input : String)
  | surplus (input : String)
  | noLine (word : String)
  deriving DecidableEq

/-- The text of a complaint about a line. -/
def Misentry.message : Misentry → String
  | unknown input => s!"unknown command: {input}"
  | surplus input => s!"unexpected arguments: {input}"
  | noLine word => s!"not a line number: {word}"

namespace Entry

/-- The list of all commands. -/
def helpText : String :=
  "commands: run | step (s) | reset | break N (b N) | clear N | breaks | help | quit (q)"

/-- What a word asks for on its own. -/
def ofWord? : String → Option Entry
  | "run" | "r" => some (action .run)
  | "step" | "s" => some (action .step)
  | "reset" => some (action .reset)
  | "breaks" => some (action .listBreakpoints)
  | "quit" | "q" | "exit" => some (action .quit)
  | "help" | "?" => some help
  | _ => none

/-- What a word asks for with another one. Which lines can be breakpoints is not decided here. -/
def ofWords? (word argument : String) : Option (Except Misentry Action) :=
  match word with
  | "break" | "b" => some (.ok (.addBreakpoint argument))
  | "clear" =>
    match Numeral.word32? argument with
    | some line => some (.ok (.removeBreakpoint line))
    | none => some (.error (.noLine argument))
  | _ => none

/-- What a line asks for. -/
def read (line : String) : Except Misentry Entry :=
  match Text.words line with
  | [] => .ok blank
  | [word] =>
    match ofWord? word with
    | some entry => .ok entry
    | none => .error (.unknown (Text.trim line))
  | word :: argument :: surplus =>
    match ofWords? word argument with
    | none => .error (.unknown (Text.trim line))
    | some (.error misentry) => .error misentry
    | some (.ok wanted) =>
      if surplus.isEmpty then .ok (action wanted) else .error (.surplus (Text.trim line))

end Entry

end Linewise
