import DeviceShell.Command.Basic
import DeviceShell.Text.Ends

/-!
# Keywords

Six keywords begin a command; two of them leave the shell. A keyword stands alone or takes one
number. The order of the list is the order in which keywords are offered. No keyword begins
another one, and no two begin with the same letter, so a typed beginning settles a keyword as soon
as it is not empty.
-/
namespace DeviceShell

inductive Keyword where
  | scan
  | exit
  | quit
  | help
  | list
  | test
  deriving DecidableEq, Repr

/-- What a keyword makes a command of: nothing more, or one number with a name. -/
inductive Form where
  | bare (command : Command)
  | counted (argument : String) (command : Int → Command)

namespace Keyword

def all : List Keyword := [.scan, .exit, .quit, .help, .list, .test]

def text : Keyword → String
  | .scan => "scan"
  | .exit => "exit"
  | .quit => "quit"
  | .help => "help"
  | .list => "list"
  | .test => "test"

def form : Keyword → Form
  | .scan => .counted "seconds" .scan
  | .exit => .bare .exit
  | .quit => .bare .exit
  | .help => .bare .help
  | .list => .bare .list
  | .test => .counted "count" .test

def kind : Keyword → CommandKind
  | .scan => .scan
  | .exit => .exit
  | .quit => .exit
  | .help => .help
  | .list => .list
  | .test => .test

/-- The name of the number that a keyword takes. -/
def argument? (k : Keyword) : Option String :=
  match k.form with
  | .bare _ => none
  | .counted argument _ => some argument

/-- How the number is shown in a syntax line. -/
def placeholder (k : Keyword) : String := "<" ++ k.argument?.getD "value" ++ ">"

/-- The syntax line of a keyword. -/
def usage (k : Keyword) : String :=
  match k.form with
  | .bare _ => k.text
  | .counted argument _ => k.text ++ " <" ++ argument ++ ">"

def summary : Keyword → String
  | .scan => "Scan for devices for the given number of seconds"
  | .exit => "Leave the shell"
  | .quit => "Leave the shell (same as exit)"
  | .help => "Show available commands"
  | .list => "List devices found by the last scan"
  | .test => "Run a test against the listed device with the given index"

def ofText? (s : String) : Option Keyword := all.find? fun k => k.text = s

/-- The keywords that a typed text begins. -/
def candidates (typed : String) : List Keyword := all.filter fun k => Text.hasPrefix typed k.text

/-- The only member of a list that has one. -/
def only? : List Keyword → Option Keyword
  | [k] => some k
  | _ => none

/-- Completes a typed beginning; only an unambiguous one completes. -/
def complete? (typed : String) : Option Keyword := only? (candidates typed)

/-- One of the two texts begins the other. -/
def isNear (word : String) (k : Keyword) : Bool :=
  Text.hasPrefix k.text word || Text.hasPrefix word k.text

/-- The keyword that a mistyped word extends or cuts short. -/
def near? (word : String) : Option Keyword :=
  if word = "" then none else only? (all.filter (isNear word))

end Keyword

end DeviceShell
