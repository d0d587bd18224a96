import DeviceShell.Command.Keyword
import DeviceShell.Json.Reader
import DeviceShell.Report.Terminal

/-!
# The help text and the version

One text with the subcommands, the global flags and the grammar of the shell. Every style in it
hangs on the same decision, so it holds escapes throughout or nowhere.

The version stands in the package manifest. Where that cannot be read, is no JSON or names no
version, the built-in one is told.
-/
namespace DeviceShell.Cli

namespace Help

open Terminal (paint)

structure Entry where
  name : String
  summary : String
  usage : String

def entries : List Entry :=
  [⟨"parse", "Parse shell lines and print the recognized commands",
      "scanshell parse [line...] [-- line...]  (reads stdin without lines)"⟩,
    ⟨"complete", "Complete a partially typed keyword", "scanshell complete <prefix>"⟩,
    ⟨"keywords", "List the shell keywords and their syntax", "scanshell keywords"⟩]

def nameWidth : Nat := (entries.map fun e => e.name.length).foldl max 0

def title (color : Bool) : String :=
  paint color .bold "scanshell" ++ " " ++ paint color .dim "— device shell command grammar"

def entryLines (color : Bool) (e : Entry) : List String :=
  ["  " ++ paint color .bold (Text.padRight nameWidth e.name) ++ "  " ++
      paint color .dim e.summary,
    "    " ++ paint color .faint "usage:" ++ " " ++ e.usage]

/-- The global flags with their arguments, and what they are for. -/
def flags : List (String × String) :=
  [("--config <path>", "Path to scanshell.json (defaults to ./scanshell.json)"),
    ("--log-level <debug|info|warn|error>", "Adjust CLI logging (defaults to warn)"),
    ("--output <text|json>", "Output format; --json is a shortcut"),
    ("--no-color", "Disable ANSI colors")]

def flagLine (flag : String × String) : String := "  " ++ Text.padRight 38 flag.1 ++ flag.2

def grammarLine (color : Bool) (k : Keyword) : String :=
  "  " ++ Text.padRight 16 k.usage ++ paint color .dim ("# " ++ k.summary)

def lines (color : Bool) : List String :=
  [title color, "", "Usage: scanshell <command> [options]", "", paint color .bold "Commands"] ++
    entries.flatMap (entryLines color) ++
    ["", paint color .bold "Global flags"] ++ flags.map flagLine ++
    ["", paint color .bold "Shell grammar"] ++ Keyword.all.map (grammarLine color)

def text (color : Bool) : String := "\n".intercalate (lines color)

end Help

namespace Version

def builtIn : String := "0.1.0"

def ofManifest? (manifest : String) : Option String :=
  match (Json.read? manifest).bind (Json.field? "version") with
  | some (.str version) => some version
  | _ => none

def text (manifest? : Option String) : String := (manifest?.bind ofManifest?).getD builtIn

end Version

end DeviceShell.Cli
