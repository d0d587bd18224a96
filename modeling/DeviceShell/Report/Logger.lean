import DeviceShell.Report.Fault

/-!
# The log

A logger writes a message when its level passes the threshold in force at that moment. The line
carries the label of the logger and the level, which is left out for plain information. An error may
come with the fault behind it, whose trace follows when even debugging is written.
-/
namespace DeviceShell

inductive LogCall where
  | debug (message : String)
  | info (message : String)
  | warn (message : String)
  | error (message : String) (fault? : Option Fault)

namespace LogCall

def level : LogCall → LogLevel
  | .debug _ => .debug
  | .info _ => .info
  | .warn _ => .warn
  | .error _ _ => .error

def message : LogCall → String
  | .debug message => message
  | .info message => message
  | .warn message => message
  | .error message _ => message

/-- The trace that comes with a call. -/
def trace? : LogCall → Option String
  | .error _ fault? => fault?.bind Fault.trace?
  | .debug _ | .info _ | .warn _ => none

end LogCall

/-- Either the threshold is set from outside, or the call logs a message. -/
inductive LogStep where
  | setLevel (level : LogLevel)
  | log (call : LogCall)

namespace Logger

def defaultLabel : String := "[scanshell]"

def tag (level : LogLevel) : String := if level = .info then "" else " " ++ level.name

/-- What one call writes under a threshold. -/
def write (label : String) (threshold : LogLevel) (call : LogCall) : List String :=
  let line := if call.level.passes threshold then [label ++ tag call.level ++ " " ++ call.message]
    else []
  let trace := if LogLevel.debug.passes threshold then call.trace?.toList else []
  line ++ trace

/-- What each step writes, for a threshold that follows the settings. -/
def trace (label : String) (threshold : LogLevel) : List LogStep → List (List String)
  | [] => []
  | .setLevel level :: steps => [] :: trace label level steps
  | .log call :: steps => write label threshold call :: trace label threshold steps

/-- What each step writes, for a threshold that nothing changes. -/
def fixedTrace (label : String) (threshold : LogLevel) (steps : List LogStep) :
    List (List String) :=
  steps.map fun
    | .setLevel _ => []
    | .log call => write label threshold call

/-- The threshold after some steps. -/
def levelAfter (threshold : LogLevel) (steps : List LogStep) : LogLevel :=
  steps.foldl (fun level step =>
    match step with
    | .setLevel next => next
    | .log _ => level) threshold

end Logger

end DeviceShell
