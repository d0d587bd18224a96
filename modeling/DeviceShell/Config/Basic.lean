import DeviceShell.Config.Shape

/-!
# Settings and what can be wrong with them

Settings come from the defaults, a file and the environment. Five things can be wrong with them:
three lie in the file and name it, two in the environment and name no file. Where another fault was
the reason, it is kept as the cause. Loading can also fail before it comes to any of them, when a
path has to be seen from a working directory that cannot be told.
-/
namespace DeviceShell

/-- The environment variables that are looked at; an unset one is absent. -/
structure Env where
  logLevel? : Option String
  output? : Option String
  noColor? : Option String
  debug? : Option String
  deriving DecidableEq, Repr

def Env.empty : Env := ⟨none, none, none, none⟩

/-- Settings of a run; without a colour the terminal decides, and the path is that of the file that
was read. -/
structure Config where
  level : LogLevel
  format : OutputFormat
  color? : Option Bool
  path? : Option String
  deriving DecidableEq, Repr

namespace Config

def default : Config := ⟨.warn, .text, none, none⟩

/-- The file that is read when no other is asked for. -/
def defaultFile : String := "scanshell.json"

inductive Error where
  | unreadable (path reason : String)
  | notFound (path : String)
  | misshapen (path : String) (issues : List Shape.Issue)
  | unknownLevel (level : LogLevel.Unknown)
  | unknownFormat (given : String)
  deriving DecidableEq, Repr

namespace Error

/-- The file at fault. -/
def path? : Error → Option String
  | .unreadable path _ => some path
  | .notFound path => some path
  | .misshapen path _ => some path
  | .unknownLevel _ => none
  | .unknownFormat _ => none

/-- Another fault was the reason. -/
def hasCause : Error → Bool
  | .unreadable _ _ => true
  | .notFound _ => false
  | .misshapen _ _ => false
  | .unknownLevel _ => true
  | .unknownFormat _ => false

def message : Error → String
  | .unreadable path reason => "Unable to read config " ++ path ++ ": " ++ reason
  | .notFound path => "Config file not found: " ++ path
  | .misshapen path issues =>
    "Invalid config " ++ path ++ ": " ++ "; ".intercalate (issues.map Shape.Issue.detail)
  | .unknownLevel level => "SCANSHELL_LOG_LEVEL: " ++ level.message
  | .unknownFormat given =>
    "SCANSHELL_OUTPUT must be one of: text, json (got '" ++ given ++ "')."

end Error

/-- Why no settings are loaded. -/
inductive Failure where
  | settings (e : Error)
  /-- The working directory cannot be told. -/
  | directory (reason : String)
  deriving DecidableEq, Repr

end Config

end DeviceShell
