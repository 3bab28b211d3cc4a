import Linewise.Bindings
import Linewise.Builtin.Basic
import Linewise.Builtin.Call
import Linewise.Code.Basic
import Linewise.Code.Emission
import Linewise.Code.Placement
import Linewise.CommandLine.Arguments
import Linewise.CommandLine.Plan
import Linewise.Controller.Basic
import Linewise.Controller.Breakpoints
import Linewise.Controller.Crew
import Linewise.Controller.Debugger
import Linewise.Controller.Surface
import Linewise.Controller.Transition
import Linewise.Decimal.Reading
import Linewise.Decimal.Shortest
import Linewise.Fault
import Linewise.Interpreter
import Linewise.Machine.Basic
import Linewise.Machine.Execution
import Linewise.Machine.Step
import Linewise.Main
import Linewise.Proofs.Code.Balance
import Linewise.Proofs.Code.Definitions
import Linewise.Proofs.Code.Lines
import Linewise.Proofs.Code.Marks
import Linewise.Proofs.Code.Placement
import Linewise.Proofs.Code.Sound
import Linewise.Proofs.Controller.Headless
import Linewise.Proofs.Controller.Log
import Linewise.Proofs.Controller.Mirror
import Linewise.Proofs.Controller.Protocol
import Linewise.Proofs.Controller.Renewal
import Linewise.Proofs.Controller.Shown
import Linewise.Proofs.Controller.Tracking
import Linewise.Proofs.Evaluation.Program
import Linewise.Proofs.Folding.Program
import Linewise.Proofs.Literal.Readback
import Linewise.Proofs.Machine.Activation
import Linewise.Proofs.Machine.Balance
import Linewise.Proofs.Machine.Control
import Linewise.Proofs.Machine.Entry
import Linewise.Proofs.Machine.Fault
import Linewise.Proofs.Machine.Marks
import Linewise.Proofs.Machine.Soundness
import Linewise.Proofs.Machine.Transparency
import Linewise.Proofs.Session.Advance
import Linewise.Proofs.Session.Consistency
import Linewise.Proofs.Session.Exchange
import Linewise.Proofs.Session.Restart
import Linewise.Proofs.Session.Service
import Linewise.Proofs.Session.Snapshot
import Linewise.Proofs.Session.Transcript
import Linewise.Proofs.Syntax.LineEndings
import Linewise.Proofs.Syntax.Nested
import Linewise.Proofs.Value.Extreme
import Linewise.Proofs.Value.Integer
import Linewise.Proofs.Value.Range
import Linewise.Proofs.Value.Repetition
import Linewise.Proofs.Value.TruthValue
import Linewise.Session.Basic
import Linewise.Session.Snapshot
import Linewise.Session.Worker
import Linewise.Settings.Basic
import Linewise.Settings.Build
import Linewise.Settings.Entries
import Linewise.Settings.Environment
import Linewise.Settings.Limits
import Linewise.Settings.LogFilter
import Linewise.Settings.Scalar
import Linewise.Settings.Toml
import Linewise.Syntax.Grammar
import Linewise.Syntax.Nesting
import Linewise.Syntax.Operator
import Linewise.Syntax.Parse
import Linewise.Syntax.Resolve
import Linewise.Syntax.Rule
import Linewise.Syntax.Token
import Linewise.Syntax.Tree
import Linewise.Terminal.Basic
import Linewise.Terminal.Dialog
import Linewise.Terminal.Entry
import Linewise.Text
import Linewise.Value.Arithmetic
import Linewise.Value.Basic
import Linewise.Value.Conversion
import Linewise.Value.Order
import Linewise.Value.Sequence
import Linewise.Value.Subscript
import Linewise.Wire.Json
import Linewise.Wire.Message
import Linewise.Wire.Reader
import Linewise.Wire.SessionId
