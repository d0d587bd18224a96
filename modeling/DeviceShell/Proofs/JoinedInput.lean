import DeviceShell.Proofs.LastFlag
import DeviceShell.Proofs.RoundTrip
import DeviceShell.Proofs.Skipping
import DeviceShell.Proofs.Verdicts

/-!
# Joined lines as input

Lines that are neither skipped nor cut can be given as arguments behind the separator or, joined, as
input; the answer is the same, line numbers included. The plain results of a run are such lines.
Moreover each of them is settled, the canonical line of its own command, so given as input they are
all accepted and come out as they went in.
-/
namespace DeviceShell.Proofs.JoinedInput

open Cli Cli.Args
open Batch (Line)
open LineEnds (Kept Whole joined)

/-- Without arguments in front of the separator there is nothing to refuse but the lack of lines. -/
theorem run_unflagged (a : Appearance) (format : OutputFormat) {input : String} {args : List String}
    {lines : List Line} (hflag : (separate args).flagged = [])
    (hlines : Verdicts.collected input args = lines) (hne : lines ≠ []) :
    Parse.run a format input args = .ok (Parse.respond a ⟨format, lines⟩) := by
  rw [Verdicts.run_eq (hflag ▸ Passes.noFormatFlag_nil), Verdicts.refusal?, hflag, hlines]
  simp [hne]

theorem number_ne_nil {lines : List String} (h : lines ≠ []) : Batch.number lines ≠ [] :=
  fun hnil => h (LineEnds.number_eq_nil_iff.mp hnil)

/-- Lines behind the separator are parsed as they stand. -/
theorem run_separated (a : Appearance) (format : OutputFormat) (input : String)
    {lines : List String} (hne : lines ≠ []) :
    Parse.run a format input ("--" :: lines) =
      .ok (Parse.respond a ⟨format, Batch.number lines⟩) := by
  have hargs : separate ("--" :: lines) = ⟨[], lines⟩ := rfl
  have hlines : Verdicts.collected input ("--" :: lines) = Batch.number lines := by
    simp [Verdicts.collected, hargs, hne]
  exact run_unflagged a format rfl hlines (number_ne_nil hne)

/-- Joined lines are parsed as they were before, under the same numbers. -/
theorem run_joined (a : Appearance) (format : OutputFormat) (closed : Bool) {lines : List String}
    (hne : lines ≠ []) (h : ∀ t ∈ lines, Kept t) :
    Parse.run a format (joined closed lines) [] =
      .ok (Parse.respond a ⟨format, Batch.number lines⟩) := by
  have hargs : separate [] = ⟨[], []⟩ := rfl
  have hlines : Verdicts.collected (joined closed lines) [] = Batch.number lines := by
    simp [Verdicts.collected, hargs, LineEnds.split_joined_of_kept closed hne h]
  exact run_unflagged a format rfl hlines (number_ne_nil hne)

/-- Lines as arguments and the same lines joined as input have one answer, and each line keeps its
place as its number. -/
theorem run_arguments_eq_run_input (a : Appearance) (format : OutputFormat) (input : String)
    (closed : Bool) {lines : List String} (hne : lines ≠ []) (h : ∀ t ∈ lines, Kept t) :
    ∃ r : Parse.Response, Parse.run a format input ("--" :: lines) = .ok r ∧
      Parse.run a format (joined closed lines) [] = .ok r ∧
      r.outcomes.map Batch.Outcome.line = Batch.number lines := by
  refine ⟨_, run_separated a format input hne, run_joined a format closed hne h, ?_⟩
  have hline : (fun line : Line => (⟨line, Command.parse line.text⟩ : Batch.Outcome).line) = id :=
    rfl
  cases format <;>
  · rw [Parse.respond, Batch.parse, List.map_map, Function.comp_def, hline, List.map_id]

/-- Lines that look like a flag or hold a `#` and a carriage return. -/
def oddLines : List String := ["scan 007", "--json", "exit\r # now"]

/-- Everything is shown, with the stacks of an engine. -/
def vivid : Appearance := ⟨true, true, Engine.plain.stack⟩

/-- As arguments and as closed input, odd lines come out in one document. -/
theorem run_arguments_eq_run_input_odd :
    oddLines ≠ [] ∧ (∀ t ∈ oddLines, Kept t) ∧
    ∃ r : Parse.Response,
      Parse.run vivid .json "help" ("--" :: oddLines) = .ok r ∧
      Parse.run vivid .json (joined true oddLines) [] = .ok r ∧
      r.outcomes.map Batch.Outcome.line =
        [⟨1, "scan 007"⟩, ⟨2, "--json"⟩, ⟨3, "exit\r # now"⟩] := by
  have hne : oddLines ≠ [] := List.cons_ne_nil _ _
  have hkept : ∀ t ∈ oddLines, Kept t := by
    rw [oddLines, List.forall_mem_cons, List.forall_mem_cons, List.forall_mem_singleton]
    refine ⟨⟨⟨?_, ?_⟩, ?_, ?_⟩, ⟨⟨?_, ?_⟩, ?_, ?_⟩, ⟨⟨?_, ?_⟩, ?_, ?_⟩⟩ <;> decide
  exact ⟨hne, hkept, run_arguments_eq_run_input vivid .json "help" true hne hkept⟩

/-- A line that is the canonical line of its own command. -/
def Settled (text : String) : Prop := ∃ c, Command.parse text = .ok c ∧ c.canonical = text

theorem settled_canonical {text : String} {c : Command} (h : Command.parse text = .ok c) :
    Settled c.canonical :=
  ⟨c, RoundTrip.parse_canonical_of_inRange (RoundTrip.inRange_of_parse h), rfl⟩

theorem whole_canonical (c : Command) : Whole c.canonical.toList := by
  have hno : ∀ d, Text.isBlank d = true → d ≠ ' ' → d ∉ c.canonical.toList := by
    intro d hblank hspace hm
    rcases RoundTrip.solid_or_space hm with hsolid | he
    · rw [hblank] at hsolid
      cases hsolid
    · exact hspace he
  exact ⟨hno '\n' rfl (by decide), fun hl => hno '\r' rfl (by decide) (List.mem_of_getLast? hl)⟩

theorem kept_of_settled {text : String} (h : Settled text) : Kept text := by
  obtain ⟨c, hparse, rfl⟩ := h
  obtain ⟨hblank, hcomment⟩ :=
    LineEnds.isSkipped_eq_false_iff.mp (Skipping.isSkipped_of_parse hparse)
  exact ⟨whole_canonical c, hblank, hcomment⟩

/-- Settled lines are all accepted, and come out as they went in. -/
theorem respond_of_settled (a : Appearance) {lines : List Line}
    (h : ∀ line ∈ lines, Settled line.text) :
    (Parse.respond a ⟨.text, lines⟩).stdout = lines.map Line.text ∧
      (Parse.respond a ⟨.text, lines⟩).stderr = [] ∧
      (Parse.respond a ⟨.text, lines⟩).failed = 0 := by
  induction lines with
  | nil => exact ⟨rfl, rfl, rfl⟩
  | cons line lines ih =>
    obtain ⟨⟨c, hparse, hc⟩, hlines⟩ := List.forall_mem_cons.mp h
    obtain ⟨hstdout, hstderr, hfailed⟩ := ih hlines
    simp only [Parse.Response.failed, Parse.respond] at hstdout hstderr hfailed ⊢
    rw [Verdicts.parse_cons, hparse]
    refine ⟨?_, ?_, ?_⟩
    · simp only [List.filterMap_cons, Parse.canonicalLine?, hc, hstdout, List.map_cons]
    · rw [List.flatMap_cons, hstderr, Parse.reportLines]
      rfl
    · rw [List.filter_cons_of_neg (by simp [Batch.Outcome.accepted]), hfailed]

/-- The format that arguments ask for, or else the given one. -/
def inForce (format : OutputFormat) (args : List String) : OutputFormat :=
  (LastFlag.lastFormat? (separate args).flagged).getD format

theorem format_of_request {format : OutputFormat} {input : String} {args : List String}
    {q : Parse.Request} (h : Parse.request format input args = .ok q) :
    q.format = inForce format args := by
  rw [Parse.request] at h
  dsimp only at h
  cases hresult : (takeOutput (separate args).flagged).result with
  | error e =>
    rw [hresult] at h
    cases h
  | ok chosen =>
    rw [hresult] at h
    obtain rfl := LastFlag.takeOutput_result hresult
    dsimp only at h
    cases hflag : (takeOutput (separate args).flagged).rest.find? isFlag with
    | some flag =>
      rw [hflag] at h
      cases h
    | none =>
      rw [hflag] at h
      rcases ite_eq_iff.mp h with ⟨-, herror⟩ | ⟨-, hok⟩
      · cases herror
      · obtain rfl := Except.ok.inj hok
        rfl

/-- An answer is about some lines, in the format in force. -/
theorem exists_of_run {a : Appearance} {format : OutputFormat} {input : String} {args : List String}
    {r : Parse.Response} (h : Parse.run a format input args = .ok r) :
    ∃ lines, r = Parse.respond a ⟨inForce format args, lines⟩ := by
  rw [Parse.run] at h
  cases hq : Parse.request format input args with
  | error e =>
    rw [hq] at h
    cases h
  | ok q =>
    rw [hq] at h
    obtain rfl := Except.ok.inj h
    rw [← format_of_request hq]
    exact ⟨q.lines, rfl⟩

theorem settled_of_mem_stdout {a : Appearance} {lines : List Line} {text : String}
    (h : text ∈ (Parse.respond a ⟨.text, lines⟩).stdout) : Settled text := by
  obtain ⟨o, ho, hc⟩ := List.mem_filterMap.mp h
  obtain ⟨line, -, rfl⟩ := List.mem_map.mp ho
  cases hparse : Command.parse line.text with
  | error e =>
    rw [Parse.canonicalLine?, hparse] at hc
    cases hc
  | ok c =>
    rw [Parse.canonicalLine?, hparse] at hc
    obtain rfl := Option.some.inj hc
    exact settled_canonical hparse

theorem isSome_canonicalLine? (o : Batch.Outcome) :
    (Parse.canonicalLine? o).isSome = o.accepted := by
  obtain ⟨line, result⟩ := o
  cases result <;> rfl

/-- A line has a result or is rejected. -/
theorem length_stdout_add_failed (a : Appearance) (lines : List Line) :
    (Parse.respond a ⟨.text, lines⟩).stdout.length + (Parse.respond a ⟨.text, lines⟩).failed =
      (Parse.respond a ⟨.text, lines⟩).total := by
  have hparts := List.length_eq_length_filter_add (l := Batch.parse lines) Batch.Outcome.accepted
  simp only [Parse.Response.failed, Parse.Response.total, Parse.respond,
    List.length_filterMap_eq_countP, isSome_canonicalLine?, List.countP_eq_length_filter]
  exact hparts.symm

theorem stdout_ne_nil {a : Appearance} {lines : List Line}
    (h : ∃ o ∈ (Parse.respond a ⟨.text, lines⟩).outcomes, o.accepted = true) :
    (Parse.respond a ⟨.text, lines⟩).stdout ≠ [] := by
  obtain ⟨o, ho, haccepted⟩ := h
  rw [← isSome_canonicalLine?] at haccepted
  obtain ⟨text, htext⟩ := Option.isSome_iff_exists.mp haccepted
  exact List.ne_nil_of_mem (List.mem_filterMap.mpr ⟨o, ho, htext⟩)

/-- Settled lines given as input are the results, and all there is. -/
theorem run_settled (b : Appearance) (closed : Bool) {texts : List String} (hne : texts ≠ [])
    (h : ∀ text ∈ texts, Settled text) :
    ∃ again : Parse.Response, Parse.run b .text (joined closed texts) [] = .ok again ∧
      again.total = texts.length ∧ again.failed = 0 ∧ again.stdout = texts ∧ again.stderr = [] := by
  have hagain := run_joined b .text closed hne fun text ht => kept_of_settled (h text ht)
  obtain ⟨hstdout, hstderr, hfailed⟩ := respond_of_settled b
    fun line hline => h line.text (LineEnds.text_mem_of_mem_number hline)
  rw [LineEnds.map_text_number] at hstdout
  have htotal := length_stdout_add_failed b (Batch.number texts)
  rw [hfailed, hstdout, Nat.add_zero] at htotal
  exact ⟨_, hagain, htotal.symm, hfailed, hstdout, hstderr⟩

/-- Plain results given as input are all accepted, and the results are the same again. -/
theorem results_again (a b : Appearance) (format : OutputFormat) (input : String)
    (args : List String) (closed : Bool) {r : Parse.Response}
    (hformat : inForce format args = .text) (hr : Parse.run a format input args = .ok r)
    (hsome : ∃ o ∈ r.outcomes, o.accepted = true) :
    ∃ again : Parse.Response, Parse.run b .text (joined closed r.stdout) [] = .ok again ∧
      again.total + r.failed = r.total ∧ again.failed = 0 ∧ again.stdout = r.stdout ∧
      again.stderr = [] ∧ again.exitCode? = none := by
  obtain ⟨lines, rfl⟩ := exists_of_run hr
  rw [hformat] at hsome ⊢
  obtain ⟨again, hagain, htotal, hfailed, hstdout, hstderr⟩ :=
    run_settled b closed (stdout_ne_nil hsome) fun _ => settled_of_mem_stdout
  refine ⟨again, hagain, ?_, hfailed, hstdout, hstderr, ?_⟩
  · rw [htotal, length_stdout_add_failed]
  · rw [Parse.Response.exitCode?, hfailed, if_pos rfl]

/-- Two accepted lines, a rejected one and a comment. -/
def mixedInput : String := "scan 007\r\nexit now\n# note\nquit"

/-- What is answered to the mixed input in plain form. -/
def mixedAnswer : Parse.Response :=
  Parse.respond vivid ⟨.text, [⟨1, "scan 007"⟩, ⟨2, "exit now"⟩, ⟨4, "quit"⟩]⟩

/-- The plain form is asked for by the second of two format flags. -/
theorem results_again_mixed :
    inForce .json ["--json", "--output", "text"] = .text ∧
    Parse.run vivid .json mixedInput ["--json", "--output", "text"] = .ok mixedAnswer ∧
    (∃ o ∈ mixedAnswer.outcomes, o.accepted = true) ∧
    ∃ again : Parse.Response,
      Parse.run { vivid with color := false } .text (joined true mixedAnswer.stdout) [] = .ok again ∧
      again.total + mixedAnswer.failed = mixedAnswer.total ∧ again.failed = 0 ∧
      again.stdout = mixedAnswer.stdout ∧ again.stderr = [] ∧ again.exitCode? = none := by
  have hformat : inForce .json ["--json", "--output", "text"] = .text := rfl
  have hr : Parse.run vivid .json mixedInput ["--json", "--output", "text"] =
      .ok mixedAnswer := by
    rfl
  have hsome : ∃ o ∈ mixedAnswer.outcomes, o.accepted = true := ⟨_, List.mem_cons_self, rfl⟩
  exact ⟨hformat, hr, hsome,
    results_again vivid { vivid with color := false } .json mixedInput _ true hformat hr hsome⟩

end DeviceShell.Proofs.JoinedInput
