import DeviceShell.Cli.Parse
import DeviceShell.Proofs.JsonReading
import DeviceShell.Proofs.LineEnds
import DeviceShell.Proofs.Passes
import DeviceShell.Proofs.Rejections
import DeviceShell.Proofs.ReportContext
import DeviceShell.World
import Mathlib.Data.List.Forall2

/-!
# What becomes of each line

`collected` and `refusal?` say which lines are parsed, or why none is, for arguments without a format
flag. `Told` reads the plain results and reports off the lines one by one: an accepted line adds its
canonical form to the results, a rejected line its report to the reports, and nothing else is
written. `Entry` says what the JSON document holds of a line. `formats_agree` is about both formats
at once: they refuse alike, and otherwise they log and count alike and tell the same lines, each in
its own way.

Reports are counted as one text for each rejected line, so traces are off throughout.
-/
namespace DeviceShell.Proofs.Verdicts

open Cli Cli.Args
open Batch (Line)
open Passes (NoFormatFlag)

/-- The lines of the arguments or, without any, those of the input. -/
def collected (input : String) (args : List String) : List Line :=
  let sides := separate args
  let given := sides.flagged ++ sides.positional
  if given.isEmpty then Batch.split input else Batch.number given

/-- Why nothing is parsed: an argument before the separator looks like a flag, or there is no
line. -/
def refusal? (input : String) (args : List String) : Option UsageError :=
  match (separate args).flagged.find? isFlag with
  | some flag => some (.unknownFlag flag)
  | none => if (collected input args).isEmpty then some .noLines else none

theorem request_eq {args : List String} (h : NoFormatFlag (separate args).flagged)
    (format : OutputFormat) (input : String) :
    Parse.request format input args =
      match refusal? input args with
      | some e => .error e
      | none => .ok ⟨format, collected input args⟩ := by
  rw [Parse.request, refusal?]
  simp only [Passes.takeOutput_of_noFormatFlag h, Option.getD_none]
  cases (separate args).flagged.find? isFlag with
  | some flag => rfl
  | none =>
    dsimp only
    rw [← collected]
    cases (collected input args).isEmpty <;> rfl

/-- A request is refused in every format alike, or answered in the one that is asked for. -/
theorem run_eq {args : List String} (h : NoFormatFlag (separate args).flagged)
    (a : Appearance) (format : OutputFormat) (input : String) :
    Parse.run a format input args =
      match refusal? input args with
      | some e => .error e
      | none => .ok (Parse.respond a ⟨format, collected input args⟩) := by
  rw [Parse.run, request_eq h]
  cases refusal? input args <;> rfl

/-- The report of a rejected line, as it is written. -/
def reportOf (color : Bool) (e : ParseError) : String :=
  Terminal.paint color .red (Report.of ⟨color, false, fun _ => none⟩ ⟨.parse e, none⟩ none).text

/-- What the lines add to the results and to the reports. -/
inductive Told (color : Bool) : List Line → List String → List String → Prop
  | nothing : Told color [] [] []
  | accepted {line : Line} {lines : List Line} {stdout stderr : List String} {c : Command}
      (hc : Command.parse line.text = .ok c) (h : Told color lines stdout stderr) :
      Told color (line :: lines) (c.canonical :: stdout) stderr
  | rejected {line : Line} {lines : List Line} {stdout stderr : List String} {e : ParseError}
      (he : Command.parse line.text = .error e) (h : Told color lines stdout stderr) :
      Told color (line :: lines) stdout (reportOf color e :: stderr)

/-- Without traces the report of a rejected line is one text. -/
theorem written_report {a : Appearance} (ht : a.traces = false) (e : ParseError) :
    (Report.of a (a.fault (.parse e)) none).written = [reportOf a.color e] := by
  have hstyle : (Diagnosis.ofCause (a.fault (.parse e)).cause).style = .red := rfl
  have htrace : Report.traceLines a (a.fault (.parse e)) = [] := by
    rw [Report.traceLines, ht]
    cases (a.fault (.parse e)).trace? <;> rfl
  rw [ReportContext.written_of, hstyle, htrace, reportOf, ReportContext.text_of,
    ReportContext.text_of]
  rfl

theorem parse_cons (line : Line) (lines : List Line) :
    Batch.parse (line :: lines) = ⟨line, Command.parse line.text⟩ :: Batch.parse lines := rfl

theorem told_respond {a : Appearance} (ht : a.traces = false) (lines : List Line) :
    Told a.color lines (Parse.respond a ⟨.text, lines⟩).stdout
      (Parse.respond a ⟨.text, lines⟩).stderr := by
  induction lines with
  | nil => exact .nothing
  | cons line lines ih =>
    rw [Parse.respond] at ih ⊢
    cases hp : Command.parse line.text with
    | ok c =>
      simp only [parse_cons, hp, List.filterMap_cons, List.flatMap_cons, Parse.canonicalLine?,
        Parse.reportLines, List.nil_append]
      exact .accepted hp ih
    | error e =>
      simp only [parse_cons, hp, List.filterMap_cons, List.flatMap_cons, Parse.canonicalLine?,
        Parse.reportLines, written_report ht, List.singleton_append]
      exact .rejected hp ih

/-- The number of rejected lines. -/
def rejections (lines : List Line) : Nat :=
  ((Batch.parse lines).filter fun o => !o.accepted).length

theorem rejections_cons_accepted {line : Line} {c : Command} (hc : Command.parse line.text = .ok c)
    (lines : List Line) : rejections (line :: lines) = rejections lines := by
  rw [rejections, parse_cons, hc, List.filter_cons_of_neg (by simp [Batch.Outcome.accepted])]
  rfl

theorem rejections_cons_rejected {line : Line} {e : ParseError}
    (he : Command.parse line.text = .error e) (lines : List Line) :
    rejections (line :: lines) = rejections lines + 1 := by
  rw [rejections, parse_cons, he, List.filter_cons_of_pos (by simp [Batch.Outcome.accepted])]
  rfl

/-- Every line is told once: a rejected one among the reports, any other among the results. -/
theorem told_counts {color : Bool} {lines : List Line} {stdout stderr : List String}
    (h : Told color lines stdout stderr) :
    stdout.length + stderr.length = lines.length ∧ stderr.length = rejections lines := by
  induction h with
  | nothing => exact ⟨rfl, rfl⟩
  | accepted hc _ ih =>
    rw [rejections_cons_accepted hc, List.length_cons, List.length_cons]
    omega
  | rejected he _ ih =>
    rw [rejections_cons_rejected he, List.length_cons, List.length_cons]
    omega

/-- What the document holds of a line: its number, its text, and its command or its error. -/
structure Entry (line : Line) (entry : Json) : Prop where
  number : entry.field? "lineNumber" = some (.ofInt line.number)
  text : entry.field? "line" = some (.str line.text)
  command : entry.field? "command" = (Command.parse line.text).toOption.map Command.toJson
  error : ∀ e, Command.parse line.text = .error e → entry.field? "error" = some (Batch.errorJson e)

/-- Lines short and few enough for a double to hold their numbers and offsets. -/
def Countable (line : Line) : Prop :=
  line.number.natAbs < Binary64.mantissaLimit ∧
    Text.unitLength line.text < Binary64.mantissaLimit

theorem entry_toJson (line : Line) :
    Entry line (Batch.Outcome.toJson ⟨line, Command.parse line.text⟩) := by
  cases hp : Command.parse line.text with
  | ok c =>
    refine ⟨rfl, rfl, ?_, fun e he => ?_⟩
    · rw [hp]
      rfl
    · rw [hp] at he
      cases he
  | error e =>
    refine ⟨rfl, rfl, ?_, fun e' he => ?_⟩
    · rw [hp]
      rfl
    · rw [hp] at he
      obtain rfl := Except.error.inj he
      rfl

theorem entries_of_parse (lines : List Line) :
    List.Forall₂ Entry lines ((Batch.parse lines).map Batch.Outcome.toJson) := by
  induction lines with
  | nil => exact .nil
  | cons line lines ih => exact .cons (entry_toJson line) ih

theorem exact_command (c : Command) : JsonReading.Exact c.toJson := by
  cases c <;> exact .object (by simp) (by simp [JsonReading.Exact.text])

theorem exact_error {e : ParseError} (h : e.position.natAbs < Binary64.mantissaLimit) :
    JsonReading.Exact (Batch.errorJson e) :=
  .object (by simp) (by simp [JsonReading.Exact.text, JsonReading.Exact.number h])

theorem exact_entry {line : Line} (h : Countable line) :
    JsonReading.Exact (Batch.Outcome.toJson ⟨line, Command.parse line.text⟩) := by
  have hnumber : JsonReading.Exact (.ofInt line.number) := .number h.1
  rw [Batch.Outcome.toJson]
  cases hp : Command.parse line.text with
  | ok c =>
    exact .object (by simp) (by simp [JsonReading.Exact.text, hnumber, exact_command])
  | error e =>
    have hposition := Nat.lt_of_le_of_lt (Rejections.position_le_of_parse hp) h.2
    exact .object (by simp) (by simp [JsonReading.Exact.text, hnumber, exact_error hposition])

/-- The document of lines that are not too many or too long is read back whole. -/
theorem read?_document {lines : List Line} (h : ∀ line ∈ lines, Countable line) :
    Json.read? (Parse.document (Batch.parse lines)).indented =
      some (.arr ((Batch.parse lines).map Batch.Outcome.toJson)) := by
  refine JsonReading.read?_indented (.array fun entry hentry => ?_)
  obtain ⟨o, ho, rfl⟩ := List.mem_map.mp hentry
  obtain ⟨line, hline, rfl⟩ := List.mem_map.mp ho
  exact exact_entry (h line hline)

/-- A document tells the lines: it is one text, which encodes one entry for each line. -/
def Documented (lines : List Line) (stdout : List String) : Prop :=
  ∃ entries : List Json, stdout = [(Json.arr entries).indented] ∧
    List.Forall₂ Entry lines entries ∧
    ((∀ line ∈ lines, Countable line) →
      Json.read? (Json.arr entries).indented = some (.arr entries))

/-- Two answers about the same lines, in plain text and as a document. -/
structure Agree (color : Bool) (lines : List Line) (plain document : Parse.Response) : Prop where
  total : plain.total = lines.length ∧ document.total = lines.length
  failed : document.failed = plain.failed
  log : document.log = plain.log
  exitCode : plain.exitCode? = (if 0 < plain.failed then some 1 else none) ∧
    document.exitCode? = plain.exitCode?
  told : Told color lines plain.stdout plain.stderr
  counts : plain.stdout.length + plain.stderr.length = plain.total ∧
    plain.stderr.length = plain.failed
  documented : Documented lines document.stdout
  silent : document.stderr = []

theorem agree_respond {a : Appearance} (ht : a.traces = false) (lines : List Line) :
    Agree a.color lines (Parse.respond a ⟨.text, lines⟩) (Parse.respond a ⟨.json, lines⟩) := by
  have htold := told_respond ht lines
  obtain ⟨hboth, herr⟩ := told_counts htold
  have hlength : (Batch.parse lines).length = lines.length := by
    rw [Batch.parse, List.length_map]
  constructor
  · exact ⟨hlength, hlength⟩
  · rfl
  · rfl
  · refine ⟨?_, rfl⟩
    rw [Parse.Response.exitCode?]
    by_cases hz : (Parse.respond a ⟨.text, lines⟩).failed = 0
    · rw [if_pos hz, if_neg (by omega)]
    · rw [if_neg hz, if_pos (by omega)]
  · exact htold
  · exact ⟨hboth.trans hlength.symm, herr⟩
  · exact ⟨_, rfl, entries_of_parse lines, read?_document⟩
  · rfl

/-- Both formats refuse for the same reason, or both answer and agree. -/
theorem formats_agree (w : World) (color? : Option Bool) (input : String) (args : List String)
    (hdebug : w.env.debug? ≠ some "1") (hargs : NoFormatFlag (separate args).flagged) :
    match refusal? input args with
    | some e => ∀ format, Parse.run (w.appearance color?) format input args = .error e
    | none => ∃ plain document : Parse.Response,
        Parse.run (w.appearance color?) .text input args = .ok plain ∧
        Parse.run (w.appearance color?) .json input args = .ok document ∧
        Agree (w.hasColor color?) (collected input args) plain document := by
  have ht : (w.appearance color?).traces = false := decide_eq_false hdebug
  have hrun := run_eq hargs (w.appearance color?)
  cases hr : refusal? input args with
  | some e =>
    intro format
    rw [hrun, hr]
  | none =>
    refine ⟨_, _, ?_, ?_, agree_respond ht (collected input args)⟩
    · rw [hrun, hr]
    · rw [hrun, hr]

/-- One line that is accepted and one that is not, under a colour choice that is in force. -/
theorem formats_agree_mixed :
    World.empty.env.debug? ≠ some "1" ∧
    NoFormatFlag (separate ["scan 007", "exit now"]).flagged ∧
    ∃ plain document : Parse.Response,
      Parse.run (World.empty.appearance (some true)) .text "" ["scan 007", "exit now"] =
        .ok plain ∧
      Parse.run (World.empty.appearance (some true)) .json "" ["scan 007", "exit now"] =
        .ok document ∧
      Agree true (collected "" ["scan 007", "exit now"]) plain document := by
  have hdebug : World.empty.env.debug? ≠ some "1" := by decide
  have hargs : NoFormatFlag (separate ["scan 007", "exit now"]).flagged :=
    ⟨by decide, by decide⟩
  have hr : refusal? "" ["scan 007", "exit now"] = none := by decide
  have h := formats_agree World.empty (some true) "" ["scan 007", "exit now"] hdebug hargs
  rw [hr] at h
  exact ⟨hdebug, hargs, h⟩

end DeviceShell.Proofs.Verdicts
