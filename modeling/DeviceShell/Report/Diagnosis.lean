import DeviceShell.Report.Fault
import DeviceShell.Report.Terminal

/-!
# Diagnoses and their reports

A fault is classified into a kind, a message and what else is known of it, usually with a suggestion
what to do. The report is one line: the tag of the program, the line of input if one is known, the
message, and the suggestion. Whoever reports may supply the line; it takes the place of the fault's
own. A keyword can be supplied as well, but the suggestion has been settled by then.
-/
namespace DeviceShell

inductive FaultKind where
  | parse
  | config
  | usage
  | other
  deriving DecidableEq, Repr

def FaultKind.name : FaultKind → String
  | .parse => "parse"
  | .config => "config-error"
  | .usage => "usage"
  | .other => "other"

def FaultKind.all : List FaultKind := [.parse, .config, .usage, .other]

/-- What is known of a fault beside its message. -/
structure Details where
  line? : Option String
  keyword? : Option String
  rejection? : Option RejectionKind
  token? : Option String
  position? : Option Int
  path? : Option String
  suggestion? : Option String
  deriving DecidableEq, Repr

def Details.empty : Details := ⟨none, none, none, none, none, none, none⟩

structure Diagnosis where
  kind : FaultKind
  message : String
  details? : Option Details
  deriving DecidableEq, Repr

namespace Diagnosis

def keywordsHint : String := "Run 'scanshell keywords' to see available commands"

def settingsHint : String := "Fix the config file or unset the SCANSHELL_* environment overrides"

def usageHint : String := "Run 'scanshell --help' for usage"

/-- The syntax of the keyword that a rejected line began with. -/
def usageOf? (e : ParseError) : Option String :=
  (e.keyword?.bind Keyword.ofText?).map Keyword.usage

/-- What to try instead of a rejected line. -/
def suggestion (e : ParseError) : String :=
  match e.kind with
  | .unrecognizedCommand =>
    match Keyword.near? e.token with
    | some k => "Did you mean '" ++ k.usage ++ "'?"
    | none => keywordsHint
  | .malformedArgument | .trailingInput =>
    match usageOf? e with
    | some usage => "Usage: " ++ usage
    | none => keywordsHint
  | .argumentOverflow =>
    match usageOf? e with
    | some usage => "Usage: " ++ usage ++ " (0 to " ++ Numeral.write Numeral.limit ++ ")"
    | none => keywordsHint

def ofParse (e : ParseError) : Diagnosis where
  kind := .parse
  message := e.message
  details? := some ⟨some e.line, e.keyword?, some e.kind, some e.token, some e.position, none,
    some (suggestion e)⟩

def ofCause : Cause → Diagnosis
  | .parse e => ofParse e
  | .config message path? =>
    ⟨.config, message, some { Details.empty with path?, suggestion? := some settingsHint }⟩
  | .usage message => ⟨.usage, message, some { Details.empty with suggestion? := some usageHint }⟩
  | .shell message context? =>
    ⟨.other, message, context?.map fun c =>
      { Details.empty with line? := c.line?, keyword? := c.keyword? }⟩
  | other => ⟨.other, other.message, none⟩

/-- The context of a report: field by field the caller's, else that of the fault. -/
def merge (own? caller? : Option Context) : Option Context :=
  match own? with
  | none => caller?
  | some own =>
    match caller? with
    | none => some own
    | some caller => some ⟨caller.line?.or own.line?, caller.keyword?.or own.keyword?⟩

def withLine (line : String) (d : Diagnosis) : Diagnosis :=
  { d with details? := some { d.details?.getD .empty with line? := some line } }

def withKeyword (keyword : String) (d : Diagnosis) : Diagnosis :=
  { d with details? := some { d.details?.getD .empty with keyword? := some keyword } }

/-- Enters a context; an empty keyword is no keyword, an empty line is a line. -/
def within (context? : Option Context) (d : Diagnosis) : Diagnosis :=
  let d := match context?.bind Context.line? with
    | some line => withLine line d
    | none => d
  match context?.bind Context.keyword? with
  | some keyword => if keyword = "" then d else withKeyword keyword d
  | none => d

def linePart (line? : Option String) : String :=
  match line? with
  | some line => Json.quote line ++ ": "
  | none => ""

/-- The suggestion continues a message: behind a full stop, or behind one that is added. -/
def suggestionPart (message : String) (suggestion? : Option String) : String :=
  match suggestion? with
  | some suggestion =>
    if suggestion = "" then ""
    else if Text.hasSuffix "." message then " " ++ suggestion
    else ". " ++ suggestion
  | none => ""

def text (d : Diagnosis) : String :=
  "[scanshell] " ++ linePart (d.details?.bind Details.line?) ++ d.message ++
    suggestionPart d.message (d.details?.bind Details.suggestion?)

/-- Misuse and faults of the settings are warnings, all else is an error. -/
def style (d : Diagnosis) : Terminal.Style :=
  match d.kind with
  | .usage | .config => .yellow
  | .parse | .other => .red

end Diagnosis

/-- How reports appear: in colour or not, with traces or without, and the stack that each error comes
with. -/
structure Appearance where
  color : Bool
  traces : Bool
  stack : Cause → Option String

/-- An error as it comes up, with its stack. -/
def Appearance.fault (a : Appearance) (cause : Cause) : Fault := ⟨cause, a.stack cause⟩

/-- A report: its line without style, and everything that is written for it. -/
structure Report where
  text : String
  written : List String
  deriving DecidableEq, Repr

namespace Report

def traceLines (a : Appearance) (f : Fault) : List String :=
  match f.trace? with
  | some trace =>
    if a.traces then [Terminal.paint a.color .red "\n[DEBUG] Full error:", trace] else []
  | none => []

def of (a : Appearance) (f : Fault) (caller? : Option Context) : Report :=
  let d := (Diagnosis.ofCause f.cause).within (Diagnosis.merge f.cause.context? caller?)
  ⟨d.text, Terminal.paint a.color d.style d.text :: traceLines a f⟩

end Report

end DeviceShell
