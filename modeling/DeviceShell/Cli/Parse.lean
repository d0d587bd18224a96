import DeviceShell.Batch
import DeviceShell.Cli.Args
import DeviceShell.Report.Diagnosis

/-!
# Parsing lines

The lines are the arguments, or those of the input when there is no argument. In plain form each
accepted line is written in its canonical form and each rejected one is reported; as JSON all of
them are entries of one document and nothing is reported. Either way two messages for each line go
to the log, and the exit code tells whether a line was rejected.
-/
namespace DeviceShell.Cli.Parse

/-- What is to be parsed and how it is written. -/
structure Request where
  format : OutputFormat
  lines : List Batch.Line

/-- Reads the arguments: format flags before `--` come first, then any other flag there is refused,
and only then is it asked whether there are lines at all. -/
def request (format : OutputFormat) (input : String) (args : List String) :
    Except UsageError Request :=
  let sides := Args.separate args
  let pass := Args.takeOutput sides.flagged
  match pass.result with
  | .error e => .error e
  | .ok chosen =>
    match pass.rest.find? Args.isFlag with
    | some flag => .error (.unknownFlag flag)
    | none =>
      let given := pass.rest ++ sides.positional
      let lines := if given.isEmpty then Batch.split input else Batch.number given
      if lines.isEmpty then .error .noLines else .ok ⟨chosen.getD format, lines⟩

/-- The arguments give no line, so the lines are those of the input. -/
def readsInput (args : List String) : Bool :=
  let sides := Args.separate args
  let pass := Args.takeOutput sides.flagged
  match pass.result with
  | .error _ => false
  | .ok _ => (pass.rest ++ sides.positional).isEmpty

/-- The two messages that the log gets for a line. -/
def messages (o : Batch.Outcome) : List String :=
  ["User input: " ++ Json.quote o.line.text,
    match o.result with
    | .ok command => "Parsed: " ++ command.canonical
    | .error e => "Parse failed (" ++ e.kind.name ++ "): " ++ e.message]

/-- What becomes of the lines: messages at debug level for the log, results and reports. -/
structure Response where
  outcomes : List Batch.Outcome
  log : List String
  stdout : List String
  stderr : List String

namespace Response

def total (r : Response) : Nat := r.outcomes.length

def failed (r : Response) : Nat := (r.outcomes.filter fun o => !o.accepted).length

/-- Set only when a line was rejected. -/
def exitCode? (r : Response) : Option Nat := if r.failed = 0 then none else some 1

end Response

def canonicalLine? (o : Batch.Outcome) : Option String :=
  match o.result with
  | .ok command => some command.canonical
  | .error _ => none

def reportLines (a : Appearance) (o : Batch.Outcome) : List String :=
  match o.result with
  | .ok _ => []
  | .error e => (Report.of a (a.fault (.parse e)) none).written

def document (outcomes : List Batch.Outcome) : Json := .arr (outcomes.map Batch.Outcome.toJson)

def respond (a : Appearance) (r : Request) : Response :=
  let outcomes := Batch.parse r.lines
  let log := outcomes.flatMap messages
  match r.format with
  | .json => ⟨outcomes, log, [(document outcomes).indented], []⟩
  | .text => ⟨outcomes, log, outcomes.filterMap canonicalLine?, outcomes.flatMap (reportLines a)⟩

/-- Parses the lines that the arguments give or leave to the input. -/
def run (a : Appearance) (format : OutputFormat) (input : String) (args : List String) :
    Except UsageError Response :=
  (request format input args).map (respond a)

end DeviceShell.Cli.Parse
