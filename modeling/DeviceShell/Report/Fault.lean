import DeviceShell.Command.Rejection
import DeviceShell.Config.Basic
import DeviceShell.Json.Printer

/-!
# Faults

Anything that can be reported: a rejected line, a fault of the settings, misuse of the command
line, a fault of the shell that may know its line, a plain error, or a mere value that is no error
at all. An error has a name and usually a stack, which is told as its trace; a value has neither.
-/
namespace DeviceShell

/-- The line and the keyword that a report may mention. -/
structure Context where
  line? : Option String
  keyword? : Option String
  deriving DecidableEq, Repr

inductive Cause where
  | parse (e : ParseError)
  | config (message : String) (path? : Option String)
  | usage (message : String)
  | shell (message : String) (context? : Option Context)
  /-- An error that belongs to no part of the shell and may lack a message. -/
  | plain (message? : Option String)
  | value (v : Json)
  | nothing
  /-- A value that contains itself and so has no text. -/
  | cyclic

namespace Cause

/-- The name of an error. -/
def name? : Cause → Option String
  | .parse _ => some "CommandParseError"
  | .config _ _ => some "ConfigError"
  | .usage _ => some "CliUsageError"
  | .shell _ _ => some "ScanshellError"
  | .plain _ => some "Error"
  | .value _ | .nothing | .cyclic => none

/-- A text stands for itself, null and nothing for the empty text, any other value for its JSON. -/
def valueMessage : Json → String
  | .str s => s
  | .null => ""
  | v => v.compact

def message : Cause → String
  | .parse e => e.message
  | .config message _ => message
  | .usage message => message
  | .shell message _ => message
  | .plain message? => message?.getD ""
  | .value v => valueMessage v
  | .nothing => ""
  | .cyclic => ""

/-- What an error of the shell knows about where it arose; faults of the settings know nothing. -/
def context? : Cause → Option Context
  | .parse e => some ⟨some e.line, e.keyword?⟩
  | .shell _ context? => context?
  | .config _ _ | .usage _ | .plain _ | .value _ | .nothing | .cyclic => none

def isParse : Cause → Bool
  | .parse _ => true
  | _ => false

/-- The error is one of the shell's own. -/
def isShell : Cause → Bool
  | .parse _ | .config _ _ | .shell _ _ => true
  | .usage _ | .plain _ | .value _ | .nothing | .cyclic => false

end Cause

/-- A cause together with the stack that comes with it, if one does. -/
structure Fault where
  cause : Cause
  stack? : Option String

/-- The trace of an error is its stack, and an empty one is none; a mere value has no trace. -/
def Fault.trace? (f : Fault) : Option String :=
  match f.cause.name? with
  | none => none
  | some _ => f.stack?.filter fun stack => stack ≠ ""

def Config.Error.cause (e : Config.Error) : Cause := .config e.message e.path?

end DeviceShell
