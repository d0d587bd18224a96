import DeviceShell.Json.Basic
import DeviceShell.Numeral

/-!
# Commands

A command is what a line of the shell asks for. Its numbers are unchecked integers: the grammar
only produces those from 0 to 2⁶⁴ − 1, but a command may be built with any. Each command has one
canonical line and one JSON view; in the view numbers are text, so that none loses digits.
-/
namespace DeviceShell

/-- What a command is about, without its number. -/
inductive CommandKind where
  | scan
  | exit
  | help
  | list
  | test
  deriving DecidableEq, Repr

def CommandKind.name : CommandKind → String
  | .scan => "scan"
  | .exit => "exit"
  | .help => "help"
  | .list => "list"
  | .test => "test"

inductive Command where
  | scan (seconds : Int)
  | exit
  | help
  | list
  | test (count : Int)
  deriving DecidableEq, Repr

namespace Command

def kind : Command → CommandKind
  | .scan _ => .scan
  | .exit => .exit
  | .help => .help
  | .list => .list
  | .test _ => .test

/-- The number that a command carries. -/
def number? : Command → Option Int
  | .scan n => some n
  | .test n => some n
  | .exit | .help | .list => none

/-- Equality of commands: one kind, and one number where the kind carries a number. -/
def same : Command → Command → Bool
  | .scan m, .scan n => m = n
  | .test m, .test n => m = n
  | left, right => left.kind = right.kind

/-- The canonical line of a command. -/
def canonical : Command → String
  | .scan seconds => "scan " ++ Numeral.writeInt seconds
  | .test count => "test " ++ Numeral.writeInt count
  | .exit => "exit"
  | .help => "help"
  | .list => "list"

def toJson : Command → Json
  | .scan seconds => .obj [("kind", .str "scan"), ("seconds", .str (Numeral.writeInt seconds))]
  | .test count => .obj [("kind", .str "test"), ("count", .str (Numeral.writeInt count))]
  | .exit => .obj [("kind", .str "exit")]
  | .help => .obj [("kind", .str "help")]
  | .list => .obj [("kind", .str "list")]

theorem same_iff_eq (c d : Command) : c.same d = true ↔ c = d := by
  cases c <;> cases d <;> simp [same, kind]

end Command

end DeviceShell
