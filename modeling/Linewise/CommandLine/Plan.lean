import Linewise.CommandLine.Arguments
import Linewise.Settings.Build
import Linewise.Settings.LogFilter
import Linewise.Terminal.Dialog

/-!
# Plans

What a command line comes to once its settings and its script have been read: a text to print, a
dialog to hold or a script to run. Reading files is left to a function, so that this part of the
program can be run, and reasoned about, without any.

Settings are checked before the script is read, and log levels before settings.
-/

namespace Linewise

open Wire (SessionId)

/-- Why a command line could not be carried out. -/
inductive Failure
  | logLevel (level : String) (fault : FilterFault)
  | settings (fault : SettingsFault)
  | unreadable (file reason : String)
  /-- The settings cannot be written as a document. -/
  | unwritable
  /-- The run of a script ended with an error. -/
  | errored (file : String)
  | loadFailed
  /-- The run of a script was given up in a state. -/
  | unexpected (state : ControllerState)
  deriving DecidableEq

/-- The name of a state in an error message. -/
def ControllerState.name : ControllerState → String
  | loading => "Loading"
  | loadFailed => "LoadFailed"
  | idle => "Idle"
  | awaitingPause mode => s!"AwaitingPause \x7b mode: {mode.label} \x7d"
  | paused line => s!"Paused \x7b line: {line} \x7d"
  | finished => "Finished"
  | errored => "Errored"
  | crashed => "Crashed"

namespace Failure

/-- What is wrong with a number that a document cannot hold. -/
def rangeText : String := "out-of-range value for u64 type"

/-- The text of a failure. -/
def message : Failure → String
  | logLevel level fault => s!"invalid log level '{level}': {fault.message}"
  | settings fault => s!"Failed to load configuration: {fault.message}"
  | unreadable file reason => s!"Failed to read script {file}: {reason}"
  | unwritable => s!"failed to render configuration: {rangeText}: {rangeText}"
  | errored file => s!"{file} stopped with an error"
  | loadFailed => "interpreter failed to load"
  | unexpected state => s!"debugger stopped unexpectedly in state {state.name}"

/-- Why the run of a script counts as a failure that has stopped in a state. -/
def ofState? (file : String) : ControllerState → Option Failure
  | .finished => none
  | .errored => some (errored file)
  | .loadFailed => some loadFailed
  | state => some (unexpected state)

end Failure

/-- What is to be done. -/
inductive Plan
  | print (text : String)
  | converse (dialog : Dialog)
  /-- Run a script to completion. -/
  | run (file : String) (dialog : Dialog)

namespace Plan

/-- The workers for some settings. -/
def crew (firstSession : SessionId) (settings : Settings) : Crew :=
  .new firstSession (.ofLimits settings.limits) (Interpreter.load settings.limits)

/-- The plan of a job. Files are read by `read`, which says why it could not. -/
def ofJob {m : Type → Type} [Monad m] (read : String → m (Except String String))
    (firstSession : SessionId) (settings : Settings) : Job → m (Except Failure Plan)
  | .config =>
    match settings.render? with
    | some text => return .ok (.print text)
    | none => return .error .unwritable
  | .debug file breakpoints => do
    match ← read file with
    | .error reason => return .error (.unreadable file reason)
    | .ok source =>
      let breakpoints := Breakpoints.ofList (breakpoints.filter (0 < ·))
      return .ok (.converse (.new (crew firstSession settings) breakpoints source))
  | .run file breakpoints traces => do
    match ← read file with
    | .error reason => return .error (.unreadable file reason)
    | .ok source =>
      let breakpoints := Breakpoints.ofList (breakpoints.filter (0 < ·))
      return .ok (.run file (Debugger.new Terminal.surface (crew firstSession settings) breakpoints
        (.unattended source traces)))

/-- The log level of a command line is one, if there is any. -/
def checkLogLevel (invocation : Invocation) : Except Failure Unit :=
  match invocation.logLevel with
  | none => .ok ()
  | some level => (LogFilter.check level).mapError (.logLevel level)

/-- The settings and the plan of a command line. -/
def ofInvocation {m : Type → Type} [Monad m] (read : String → m (Except String String))
    (firstSession : SessionId) (environment : Environment) (invocation : Invocation) :
    m (Except Failure (Settings × Plan)) := do
  match checkLogLevel invocation with
  | .error failure => return .error failure
  | .ok () =>
    match ← Settings.load (fun file => Except.toOption <$> read file) environment
        invocation.configFile with
    | .error fault => return .error (.settings fault)
    | .ok settings =>
      return (← ofJob read firstSession settings invocation.job).map fun plan => (settings, plan)

end Plan

end Linewise
