import DeviceShell.Text.Ends

/-!
# Log levels and output formats

Four levels in order of weight. A message passes a threshold when it is at least as heavy. A level
is named by its word in any case and with blanks around it; a blank name leaves the choice to a
fallback, and any other name is refused as it was given.

Results are written as plain lines or as one JSON document.
-/
namespace DeviceShell

inductive LogLevel where
  | debug
  | info
  | warn
  | error
  deriving DecidableEq, Repr

namespace LogLevel

def all : List LogLevel := [.debug, .info, .warn, .error]

def name : LogLevel → String
  | .debug => "debug"
  | .info => "info"
  | .warn => "warn"
  | .error => "error"

def weight : LogLevel → Nat
  | .debug => 0
  | .info => 1
  | .warn => 2
  | .error => 3

/-- A message of this level is written under the threshold. -/
def passes (level threshold : LogLevel) : Bool := threshold.weight ≤ level.weight

def ofName? (s : String) : Option LogLevel := all.find? fun level => level.name = s

/-- A name that is no level. -/
structure Unknown where
  given : String
  deriving DecidableEq, Repr

def Unknown.message (u : Unknown) : String :=
  "Invalid log level '" ++ u.given ++ "'. Expected one of: " ++
    ", ".intercalate (all.map name) ++ "."

/-- The name as it is looked up. The names are ASCII, and no other letter has a small form among
theirs, so lowering the ASCII capitals is enough. -/
def normalize (s : String) : String := String.ofList ((Text.trim s).toList.map Char.toLower)

/-- The named level; the fallback if no name is given or the name is blank. -/
def choose (given : Option String) (fallback : LogLevel) : Except Unknown LogLevel :=
  match given with
  | none => .ok fallback
  | some s =>
    if Text.isBlankText s then .ok fallback
    else match ofName? (normalize s) with
      | some level => .ok level
      | none => .error ⟨s⟩

end LogLevel

inductive OutputFormat where
  | text
  | json
  deriving DecidableEq, Repr

namespace OutputFormat

def all : List OutputFormat := [.text, .json]

def name : OutputFormat → String
  | .text => "text"
  | .json => "json"

def ofName? (s : String) : Option OutputFormat := all.find? fun format => format.name = s

end OutputFormat

end DeviceShell
