import DeviceShell.Command.Keyword
import DeviceShell.Command.Token

/-!
# Rejected lines

A line is rejected for one cause. What is reported of a rejection is its kind, the word it is about
and where that word stands, the keyword if one was recognised, and a message. A report may also be
composed freely, so the record of one does not presuppose a cause.
-/
namespace DeviceShell

inductive RejectionKind where
  | unrecognizedCommand
  | malformedArgument
  | argumentOverflow
  | trailingInput
  deriving DecidableEq, Repr

def RejectionKind.name : RejectionKind → String
  | .unrecognizedCommand => "UnrecognizedCommand"
  | .malformedArgument => "MalformedArgument"
  | .argumentOverflow => "ArgumentOverflow"
  | .trailingInput => "TrailingInput"

def RejectionKind.all : List RejectionKind :=
  [.unrecognizedCommand, .malformedArgument, .argumentOverflow, .trailingInput]

/-- Why a line is no command. -/
inductive Rejection where
  /-- The line has no words. -/
  | blank
  | unknownKeyword (word : Token)
  /-- A word follows a keyword that stands alone. -/
  | trailing (keyword : Keyword) (word : Token)
  /-- The number is missing; `stop` is the offset behind the keyword. -/
  | missingArgument (keyword : Keyword) (stop : Nat)
  /-- More than one word follows; `extra` is the second of `count`. -/
  | surplus (keyword : Keyword) (extra : Token) (count : Nat)
  | notANumber (keyword : Keyword) (word : Token)
  | tooLarge (keyword : Keyword) (word : Token)
  deriving DecidableEq, Repr

namespace Rejection

def kind : Rejection → RejectionKind
  | .blank => .unrecognizedCommand
  | .unknownKeyword _ => .unrecognizedCommand
  | .trailing _ _ => .trailingInput
  | .missingArgument _ _ => .malformedArgument
  | .surplus _ _ _ => .malformedArgument
  | .notANumber _ _ => .malformedArgument
  | .tooLarge _ _ => .argumentOverflow

/-- The word that the rejection is about; empty where the line ended before one. -/
def token : Rejection → Token
  | .blank => ⟨"", 0⟩
  | .unknownKeyword word => word
  | .trailing _ word => word
  | .missingArgument _ stop => ⟨"", stop⟩
  | .surplus _ extra _ => extra
  | .notANumber _ word => word
  | .tooLarge _ word => word

def keyword? : Rejection → Option Keyword
  | .blank => none
  | .unknownKeyword _ => none
  | .trailing k _ => some k
  | .missingArgument k _ => some k
  | .surplus k _ _ => some k
  | .notANumber k _ => some k
  | .tooLarge k _ => some k

def message : Rejection → String
  | .blank => "Expected a command but the line is empty"
  | .unknownKeyword word => "Unknown command '" ++ word.text ++ "'"
  | .trailing k word =>
    "Command '" ++ k.text ++ "' takes no arguments, found '" ++ word.text ++ "'"
  | .missingArgument k _ => "Command '" ++ k.text ++ "' requires " ++ k.placeholder
  | .surplus k _ count =>
    "Command '" ++ k.text ++ "' takes exactly one argument, got " ++ Numeral.write count
  | .notANumber k word =>
    "Invalid " ++ k.placeholder ++ " for '" ++ k.text ++ "': '" ++ word.text ++
      "' is not a non-negative integer"
  | .tooLarge k word =>
    "Argument '" ++ word.text ++ "' for '" ++ k.text ++ "' exceeds " ++
      Numeral.write Numeral.limit

end Rejection

/-- A rejected line as it is reported. -/
structure ParseError where
  kind : RejectionKind
  message : String
  token : String
  position : Int
  line : String
  keyword? : Option String
  deriving DecidableEq, Repr

def ParseError.ofRejection (line : String) (r : Rejection) : ParseError where
  kind := r.kind
  message := r.message
  token := r.token.text
  position := r.token.position
  line := line
  keyword? := r.keyword?.map Keyword.text

end DeviceShell
