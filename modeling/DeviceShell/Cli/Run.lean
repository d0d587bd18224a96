import DeviceShell.Cli.Catalogue
import DeviceShell.Cli.Help
import DeviceShell.Cli.Invocation
import DeviceShell.Cli.Parse
import DeviceShell.Report.Logger
import DeviceShell.World

/-!
# Runs of the program

A run takes the world, what earlier runs left behind, and its arguments. It either answers with
output and perhaps an exit code, or fails: with misuse, with a fault of the settings, or because the
working directory or the input cannot be read. Global flags are read first, then help and version
are served without settings; everything else loads the settings and puts level and colour in force.
What is settled by then is the plan of the run, which hands over to a subcommand.

Of the world a run reads at most one file, and it reads its input only to parse lines that were not
given as arguments. Both are settled by the arguments alone (`Demand`), so a caller can gather just
that much before the run.
-/
namespace DeviceShell.Cli

/-- Why a run failed. -/
inductive Failure where
  | usage (e : UsageError)
  | config (e : Config.Error)
  /-- Reading failed, and the error is passed on as it came. -/
  | plain (reason : String)
  deriving DecidableEq, Repr

def Failure.cause : Failure → Cause
  | .usage e => .usage e.message
  | .config e => e.cause
  | .plain reason => .plain (some reason)

def Failure.ofLoad : Config.Failure → Failure
  | .settings e => .config e
  | .directory reason => .plain reason

/-- What a run wrote, in two lists of lines, and how it ended. -/
structure Outcome where
  session : Session
  stdout : List String
  stderr : List String
  exitCode? : Option Nat
  failure? : Option Failure
  deriving DecidableEq, Repr

namespace Outcome

def failed (s : Session) (stderr : List String) (f : Failure) : Outcome :=
  ⟨s, [], stderr, none, some f⟩

def answered (s : Session) (stdout stderr : List String) (exitCode? : Option Nat) : Outcome :=
  ⟨s, stdout, stderr, exitCode?, none⟩

/-- Puts lines in front of the error output. -/
def after (opening : List String) (o : Outcome) : Outcome :=
  { o with stderr := opening ++ o.stderr }

end Outcome

inductive Subcommand where
  | parse
  | complete
  | keywords
  deriving DecidableEq, Repr

def Subcommand.ofWord? (word : String) : Option Subcommand :=
  if word = "parse" then some .parse
  else if word = "complete" then some .complete
  else if word = "keywords" then some .keywords
  else none

def isHelpWord (word : String) : Bool := word = "--help" ∨ word = "-h" ∨ word = "help"

def isVersionWord (word : String) : Bool := word = "--version" ∨ word = "-v" ∨ word = "-V"

/-- The help text, behind a message and an empty line if there is a message. -/
def help (w : World) (s : Session) (message? : Option String) (exitCode : Nat) : Outcome :=
  let opening := match message? with
    | some message => [message, ""]
    | none => []
  .answered s [] (opening ++ [Help.text (w.hasColor s.color?)]) (some exitCode)

/-- What debug messages write under the level of a session. -/
def debugLines (s : Session) (messages : List String) : List String :=
  messages.flatMap fun message => Logger.write Logger.defaultLabel s.level (.debug message)

/-- The input as far as the arguments ask for it. -/
def inputFor (w : World) (args : List String) : Except String String :=
  if Parse.readsInput args then w.input else .ok ""

def runParse (w : World) (s : Session) (format : OutputFormat) (args : List String) : Outcome :=
  match inputFor w args with
  | .error reason => .failed s [] (.plain reason)
  | .ok input =>
    match Parse.run (w.appearance s.color?) format input args with
    | .error e => .failed s [] (.usage e)
    | .ok r => .answered s r.stdout (debugLines s r.log ++ r.stderr) r.exitCode?

def runComplete (s : Session) (format : OutputFormat) (args : List String) : Outcome :=
  match Catalogue.complete format args with
  | .error e => .failed s [] (.usage e)
  | .ok r => .answered s (r.completion.stdout r.format) [] r.completion.exitCode?

def runKeywords (s : Session) (format : OutputFormat) (args : List String) : Outcome :=
  match (Catalogue.keywords format args).result with
  | .error e => .failed s [] (.usage e)
  | .ok stdout => .answered s stdout [] none

/-- Hands over to the subcommand that a word names. -/
def dispatch (w : World) (s : Session) (format : OutputFormat) (word : String)
    (args : List String) : Outcome :=
  match Subcommand.ofWord? word with
  | some .parse => runParse w s format args
  | some .complete => runComplete s format args
  | some .keywords => runKeywords s format args
  | none => help w s (some ("Unknown command '" ++ word ++ "'.")) 1

/-- The choice of colour that the flags make, before the settings are known. -/
def flagColor (inv : Invocation) : Option Bool := if inv.noColor then some false else none

/-- What is settled when a run reaches its subcommand: the level and the colour in force, the file
that the settings came from, the format, and the words with what stands behind `--`. -/
structure Plan where
  session : Session
  path? : Option String
  format : OutputFormat
  word : String
  args : List String
  positional : List String
  deriving DecidableEq, Repr

/-- Puts settings in force under the flags. A flag for the level counts last, so a wrong one is
found when everything else is settled. -/
def planUnder (inv : Invocation) (c : Config) (word : String) (args : List String) :
    Except Outcome Plan :=
  let color? := (flagColor inv).or c.color?
  match LogLevel.choose inv.level? c.level with
  | .error unknown => .error (.failed ⟨c.level, color?⟩ [] (.usage (.unknownLevel unknown)))
  | .ok level =>
    .ok ⟨⟨level, color?⟩, c.path?, inv.format?.getD c.format, word, args, inv.positional⟩

/-- The plan of a run whose flags have been read, or how it ends without a subcommand. -/
def planInvocation (w : World) (s : Session) (inv : Invocation) : Except Outcome Plan :=
  match inv.words with
  | [] => .error (help w s none 1)
  | word :: args =>
    if word = "" then .error (help w s none 1)
    else if isHelpWord word then .error (help w s none 0)
    else if isVersionWord word then .error (.answered s [Version.text w.manifest?] [] none)
    else match w.load inv.configPath? with
      | .error f => .error (.failed s [] (.ofLoad f))
      | .ok c => planUnder inv c word args

/-- The plan of a run, or how it ends without a subcommand. Without arguments there is nothing to
read, and the choice of colour is the one that the session brought along. -/
def plan (w : World) (s : Session) (argv : List String) : Except Outcome Plan :=
  if argv.isEmpty then .error (help w s none 1)
  else match Invocation.ofArgs argv with
    | .error e => .error (.failed s [] (.usage e))
    | .ok inv => planInvocation w { s with color? := flagColor inv } inv

/-- What is told of the file that the settings came from. -/
def loadedMessages (path? : Option String) : List String :=
  match path? with
  | some path => ["Loaded config from " ++ path]
  | none => []

/-- Hands over to the subcommand. -/
def Plan.carryOut (w : World) (p : Plan) : Outcome :=
  (dispatch w p.session p.format p.word (Invocation.passedOn p.args p.positional)).after
    (debugLines p.session (loadedMessages p.path?))

/-- One run. -/
def run (w : World) (s : Session) (argv : List String) : Outcome :=
  match plan w s argv with
  | .error o => o
  | .ok p => p.carryOut w

/-- What is written about a failure: misuse goes to the log as an error, anything else is
reported. -/
def failureLines (w : World) (s : Session) (f : Failure) : List String :=
  match f with
  | .usage e => Logger.write Logger.defaultLabel s.level (.error e.message none)
  | .config _ | .plain _ =>
    let a := w.appearance s.color?
    (Report.of a (a.fault f.cause) none).written

/-- A whole program: a run whose failure is written out and ends it with exit code 1. -/
def program (w : World) (s : Session) (argv : List String) : Outcome :=
  let o := run w s argv
  match o.failure? with
  | none => o
  | some f =>
    .answered o.session o.stdout (o.stderr ++ failureLines w o.session f) (some 1)

namespace Demand

/-- The one file that a run may read, seen from a working directory. -/
def file? (cwd : Except String String) (argv : List String) : Option String :=
  match Invocation.ofArgs argv with
  | .ok inv => (Config.pathOf cwd none inv.configPath?).toOption
  | .error _ => none

/-- Whether a run may look at its input. -/
def input (argv : List String) : Bool :=
  match Invocation.ofArgs argv with
  | .ok inv =>
    match inv.words with
    | word :: args =>
      word = "parse" && Parse.readsInput (Invocation.passedOn args inv.positional)
    | [] => false
  | .error _ => false

end Demand

end DeviceShell.Cli
