import DeviceShell.Cli.Args

/-!
# Invocations

The arguments of a run split at the first `--`. From the part before it three passes take the global
flags, one after another: the flags with a free value, the output format, the colour switch. What is
left are the words, the first of which names the subcommand.
-/
namespace DeviceShell.Cli

structure Invocation where
  configPath? : Option String
  level? : Option String
  format? : Option OutputFormat
  noColor : Bool
  words : List String
  positional : List String
  deriving DecidableEq, Repr

namespace Invocation

/-- The global flags with a free value. -/
def valueFlags : List String := ["--config", "--log-level"]

def ofArgs (argv : List String) : Except UsageError Invocation :=
  let sides := Args.separate argv
  let values := Args.extract valueFlags sides.flagged
  match values.result with
  | .error e => .error e
  | .ok pairs =>
    let output := Args.takeOutput values.rest
    match output.result with
    | .error e => .error e
    | .ok format? =>
      let (noColor, words) := Args.takeSwitch "--no-color" output.rest
      .ok ⟨Args.valueOf? "--config" pairs, Args.valueOf? "--log-level" pairs, format?, noColor,
        words, sides.positional⟩

/-- What is passed on to a subcommand; the separator is kept only before something. -/
def passedOn (args positional : List String) : List String :=
  if positional.isEmpty then args else args ++ "--" :: positional

end Invocation

end DeviceShell.Cli
