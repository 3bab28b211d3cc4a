import Linewise.CommandLine.Plan

/-!
# The program

The command line of the debugger. Failures are told on the error output and end the program with
status one, a command line that is none with status two.
-/

namespace Linewise

/-- More steps than any stretch of a run takes. -/
def ample : Nat := 1000000000000000000

/-- The short description of the command line. -/
def usage : String :=
  "usage: [--config PATH] [--log-level LEVEL] " ++
    "(debug FILE [-b LINE]... | run FILE [-b LINE]... [--trace] | config)"

/-- The contents of a file, or why they cannot be read. -/
def readFile (file : String) : IO (Except String String) := do
  try
    return .ok (← IO.FS.readFile file)
  catch
    | .noFileOrDirectory .. => return .error "No such file or directory (os error 2)"
    | e => return .error e.toString

/-- The environment of the process. -/
def readEnvironment : IO Environment := do
  match ← readFile "/proc/self/environ" with
  | .error _ => return []
  | .ok text =>
    return (text.splitOn "\x00").filterMap fun entry =>
      match Invocation.splitValue entry.toList with
      | (name, some value) => some (name, value)
      | (_, none) => none

/-- Prints what a dialog has to say. -/
def showDialog (dialog : Dialog) : IO Dialog := do
  let (text, dialog) := dialog.flush
  let out ← IO.getStdout
  out.putStr text
  out.flush
  return dialog

/-- Runs a script to completion. -/
partial def runToCompletion (dialog : Dialog) : IO ControllerState := do
  let dialog ← showDialog dialog
  match Debugger.round Terminal.surface ample Debugger.toCompletion dialog with
  | .next dialog => runToCompletion dialog
  | .over | .stuck => return dialog.state

/-- The next line that the user types, read in the background. -/
def nextLine : IO (Task (Except IO.Error String)) := do
  let input ← IO.getStdin
  IO.asTask input.getLine

/-- Holds a dialog until the user ends it. A line counts as soon as it has been typed, also while
    a script runs. -/
partial def converse (dialog : Dialog) (line : Task (Except IO.Error String)) : IO Unit := do
  let dialog ← showDialog dialog
  let next := (Debugger.listen Terminal.surface ample dialog).join
  if next.isSome && !(← IO.hasFinished line) then converse (next.getD dialog) line
  else
    match line.get with
    | .error e => throw e
    | .ok "" => return
    | .ok text =>
      match dialog.enter text with
      | none => return
      | some dialog => converse dialog (← nextLine)

/-- Carries out a plan. -/
def Plan.carryOut (settings : Settings) : Plan → IO (Option Failure)
  | print text => do
    (← IO.getStdout).putStr text
    return none
  | .converse dialog => do
    let dialog ← showDialog dialog
    IO.sleep (UInt32.ofNatClamp settings.bootstrapDelay)
    Linewise.converse dialog (← nextLine)
    return none
  | run file dialog => do
    IO.sleep (UInt32.ofNatClamp settings.bootstrapDelay)
    return Failure.ofState? file (← runToCompletion dialog)

/-- A session number that has not been used before. -/
def freshSession : IO Wire.SessionId := do
  return ⟨.ofNat 128 (← IO.rand 1 0xFFFFFFFFFFFFFFFFFFFFFFFFFFFFFFFF)⟩

end Linewise

open Linewise in
/-- The program. -/
def main (words : List String) : IO UInt32 := do
  match Invocation.ofWords? words with
  | none =>
    IO.eprintln usage
    return 2
  | some invocation =>
    let outcome ← Plan.ofInvocation readFile (← freshSession) (← readEnvironment) invocation
    let failure ← match outcome with
      | .error failure => pure (some failure)
      | .ok (settings, plan) => plan.carryOut settings
    match failure with
    | none => return 0
    | some failure =>
      IO.eprintln s!"Error: {failure.message}"
      return 1
