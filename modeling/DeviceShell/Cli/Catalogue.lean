import DeviceShell.Cli.Args
import DeviceShell.Command.Keyword
import DeviceShell.Json.Printer

/-!
# Completing and listing keywords

A typed beginning is answered by the keywords that it begins; the empty one by all of them. The
listing shows every keyword with its syntax. Its format flags are taken from all of its arguments,
also behind `--`.
-/
namespace DeviceShell.Cli.Catalogue

/-- Answer to a typed beginning. -/
structure Completion where
  typed : String
  completion? : Option Keyword
  candidates : List Keyword

/-- An unambiguous completion is the only candidate. -/
def Completion.of (typed : String) : Completion :=
  let completion? := Keyword.complete? typed
  ⟨typed, completion?,
    match completion? with
    | some k => [k]
    | none => Keyword.candidates typed⟩

namespace Completion

def toJson (c : Completion) : Json :=
  .obj [("prefix", .str c.typed),
    ("completion", (c.completion?.map fun k => Json.str k.text).getD .null),
    ("candidates", .arr (c.candidates.map fun k => .str k.text))]

def stdout (c : Completion) : OutputFormat → List String
  | .json => [c.toJson.indented]
  | .text => c.candidates.map Keyword.text

/-- Set only when no keyword is left. -/
def exitCode? (c : Completion) : Option Nat := if c.candidates.isEmpty then some 1 else none

end Completion

/-- A completion and the format it is written in. -/
structure Request where
  format : OutputFormat
  completion : Completion

/-- Completes the one argument, or the empty text without arguments. -/
def complete (format : OutputFormat) (args : List String) : Except UsageError Request :=
  let sides := Args.separate args
  let pass := Args.takeOutput sides.flagged
  match pass.result with
  | .error e => .error e
  | .ok chosen =>
    match pass.rest ++ sides.positional with
    | [] => .ok ⟨chosen.getD format, .of ""⟩
    | [typed] => .ok ⟨chosen.getD format, .of typed⟩
    | _ => .error .surplusPrefix

def entryJson (k : Keyword) : Json :=
  .obj [("keyword", .str k.text), ("usage", .str k.usage), ("summary", .str k.summary)]

/-- Width of the column of syntax lines. -/
def usageWidth : Nat := (Keyword.all.map fun k => k.usage.length).foldl max 0

def entryLine (k : Keyword) : String := Text.padRight usageWidth k.usage ++ "  " ++ k.summary

def listing : OutputFormat → List String
  | .json => [(Json.arr (Keyword.all.map entryJson)).indented]
  | .text => Keyword.all.map entryLine

/-- Lists the keywords in the format that the arguments choose. -/
def keywords (format : OutputFormat) (args : List String) : Args.Pass (List String) :=
  (Args.takeOutput args).map fun chosen => listing (chosen.getD format)

end DeviceShell.Cli.Catalogue
