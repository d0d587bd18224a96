import DeviceShell.Cli.Run
import DeviceShell.Proofs.Plans
import DeviceShell.Proofs.ReportContext

/-!
# Failed runs

A run may fail while its flags are read, while its settings are loaded, while the level is chosen, or
in its subcommand. Wherever that is, it fails before it does anything else: there are no results, no
exit code, and on the error output at most the one line that tells of the settings file, which is
written only where everything is logged. `failed_run` says so of every run, and says what a whole
program makes of the failure: one line of the log for misuse, whatever the level, and a report for
anything else. That need not be a fault of the settings: where the working directory or the input
cannot be read, the run passes the error on as it came (`Unread`).
-/
namespace DeviceShell.Proofs.Failures

open Cli

/-- The error with which something could not be read that the arguments ask for: the working
directory, seen from which the settings file would be found, or the input with the lines to parse. -/
inductive Unread (w : World) (argv : List String) : Failure → Prop
  | directory {reason : String} (hcwd : w.disk.cwd = .error reason)
      (hfile : Demand.file? w.disk.cwd argv = none) : Unread w argv (.plain reason)
  | input {reason : String} (hstdin : w.stdin = .error reason)
      (hterminal : w.stdinIsTerminal = false) (hinput : Demand.input argv = true) :
      Unread w argv (.plain reason)

/-- What a failed run has written under a level: nothing, or where the settings came from. The file
that is told of is the one that the run may read, and it was read. -/
inductive Preamble (w : World) (argv : List String) (level : LogLevel) : List String → Prop
  | silent : Preamble w argv level []
  | loaded {path text : String} (hlevel : level = .debug)
      (hfile : Demand.file? w.disk.cwd argv = some path) (hread : w.disk.read path = .content text) :
      Preamble w argv level ["[scanshell] debug Loaded config from " ++ path]

/-- Nothing has been done but to write a preamble. -/
structure NothingDone (w : World) (argv : List String) (o : Outcome) : Prop where
  stdout : o.stdout = []
  exitCode : o.exitCode? = none
  stderr : Preamble w argv o.session.level o.stderr

/-- A failure comes before anything is written and before an exit code is set. -/
def FailsFirst (o : Outcome) : Prop :=
  ∀ f, o.failure? = some f → o.stdout = [] ∧ o.stderr = [] ∧ o.exitCode? = none

theorem failsFirst_failed (s : Session) (f : Failure) : FailsFirst (.failed s [] f) :=
  fun _ _ => ⟨rfl, rfl, rfl⟩

theorem failsFirst_answered (s : Session) (stdout stderr : List String) (exitCode? : Option Nat) :
    FailsFirst (.answered s stdout stderr exitCode?) := by
  intro f h
  cases h

theorem failsFirst_of_ended {w : World} {s : Session} {argv : List String} {o : Outcome}
    (h : Plans.Ended w s argv o) : FailsFirst o := by
  cases h with
  | misused _ => exact failsFirst_failed _ _
  | unloaded _ _ => exact failsFirst_failed _ _
  | misnamed _ _ _ => exact failsFirst_failed _ _
  | _ => exact failsFirst_answered _ _ _ _

/-- How a subcommand ends: without the input that it asked for, in misuse, or with an answer. It leaves
the session as it was put in force. -/
inductive Dispatched (w : World) (s : Session) (word : String) (args : List String) : Outcome → Prop
  | unread {reason : String} (hword : word = "parse") (hasked : Parse.readsInput args = true)
      (hinput : w.input = .error reason) : Dispatched w s word args (.failed s [] (.plain reason))
  | misused (e : UsageError) : Dispatched w s word args (.failed s [] (.usage e))
  | answered (stdout stderr : List String) (exitCode? : Option Nat) :
      Dispatched w s word args (.answered s stdout stderr exitCode?)

theorem dispatched_of_parsed {w : World} {s : Session} {format : OutputFormat} {word : String}
    {args : List String} {o : Outcome} (hword : word = "parse")
    (h : Plans.Parsed w s format args o) : Dispatched w s word args o := by
  cases h with
  | unread hasked hinput => exact .unread hword hasked hinput
  | refused _ => exact .misused _
  | answered _ => exact .answered _ _ _

theorem dispatched (w : World) (s : Session) (format : OutputFormat) (word : String)
    (args : List String) : Dispatched w s word args (dispatch w s format word args) := by
  unfold dispatch
  cases hword : Subcommand.ofWord? word with
  | none => exact .answered _ _ _
  | some sub =>
    cases sub with
    | parse =>
      exact dispatched_of_parsed (Plans.ofWord?_eq_some_iff.mp hword)
        (Plans.parsed_runParse w s format args)
    | complete =>
      simp only [runComplete]
      cases Catalogue.complete format args with
      | error e => exact .misused e
      | ok r => exact .answered _ _ _
    | keywords =>
      simp only [runKeywords]
      cases (Catalogue.keywords format args).result with
      | error e => exact .misused e
      | ok stdout => exact .answered _ _ _

theorem failsFirst_of_dispatched {w : World} {s : Session} {word : String} {args : List String}
    {o : Outcome} (h : Dispatched w s word args o) : FailsFirst o ∧ o.session = s := by
  cases h with
  | unread _ _ _ => exact ⟨failsFirst_failed _ _, rfl⟩
  | misused e => exact ⟨failsFirst_failed _ _, rfl⟩
  | answered _ _ _ => exact ⟨failsFirst_answered _ _ _ _, rfl⟩

theorem path_of_underEnv {env : Env} {base c : Config} (h : Config.underEnv env base = .ok c) :
    c.path? = base.path? := by
  rw [Config.underEnv] at h
  cases hl : LogLevel.choose env.logLevel? base.level with
  | error unknown => rw [hl] at h; cases h
  | ok level =>
    rw [hl] at h
    cases hf : Config.formatOf env.output? base.format with
    | error e => rw [hf] at h; cases h
    | ok format =>
      rw [hf] at h
      obtain rfl := Except.ok.inj h
      rfl

/-- Settings name a file only if it was read, and it is the one that was looked for. -/
theorem read_of_load {w : World} {asked? : Option String} {c : Config} {path : String}
    (h : w.load asked? = .ok c) (hpath : c.path? = some path) :
    Config.pathOf w.disk.cwd none asked? = .ok path ∧ ∃ text, w.disk.read path = .content text := by
  obtain ⟨found, settings?, hp, hf, hu⟩ := Config.steps_of_load h
  have hkept := path_of_underEnv hu
  rw [hpath] at hkept
  rcases Config.source_of_ofFile hf with ⟨rfl, -⟩ | ⟨text, root, out, hr, -, -, rfl⟩
  · cases hkept
  · obtain rfl := Option.some.inj hkept
    exact ⟨hp, text, hr⟩

/-- A debug message is written where everything is logged, and is one line. -/
theorem debugLines_singleton (s : Session) (message : String) :
    debugLines s [message] =
      if s.level = .debug then ["[scanshell] debug " ++ message] else [] := by
  obtain ⟨level, color?⟩ := s
  cases level <;> rfl

theorem file?_of_ofArgs {w : World} {argv : List String} {inv : Invocation}
    (h : Invocation.ofArgs argv = .ok inv) :
    Demand.file? w.disk.cwd argv =
      (Config.pathOf w.disk.cwd none inv.configPath?).toOption := by
  rw [Demand.file?, h]

theorem preamble_of_source {w : World} {argv : List String} {p : Plan} {inv : Invocation}
    {c : Config} (h : Plans.Source w argv p inv c) :
    Preamble w argv p.session.level (debugLines p.session (loadedMessages p.path?)) := by
  rw [h.path]
  cases hpath : c.path? with
  | none => exact .silent
  | some path =>
    obtain ⟨hfile, text, hread⟩ := read_of_load h.settings hpath
    show Preamble w argv p.session.level (debugLines p.session ["Loaded config from " ++ path])
    rw [debugLines_singleton]
    by_cases hlevel : p.session.level = .debug
    · have hdemand : Demand.file? w.disk.cwd argv = some path := by
        rw [file?_of_ofArgs h.flags, hfile]
        rfl
      rw [if_pos hlevel, ← String.append_assoc]
      exact .loaded hlevel hdemand hread
    · rw [if_neg hlevel]
      exact .silent

/-- Wherever a run fails, it has done nothing before. -/
theorem nothingDone_of_failure {w : World} {s : Session} {argv : List String} {f : Failure}
    (h : (run w s argv).failure? = some f) : NothingDone w argv (run w s argv) := by
  unfold run at h ⊢
  cases hp : plan w s argv with
  | error o =>
    rw [hp] at h
    obtain ⟨hout, herr, hexit⟩ := failsFirst_of_ended (Plans.ended_of_plan hp) f h
    exact ⟨hout, hexit, herr ▸ .silent⟩
  | ok p =>
    rw [hp] at h
    obtain ⟨inv, c, hsource⟩ := Plans.exists_source hp
    obtain ⟨hfirst, hsession⟩ := failsFirst_of_dispatched (dispatched w p.session p.format p.word
      (Invocation.passedOn p.args p.positional))
    obtain ⟨hout, herr, hexit⟩ := hfirst f h
    refine ⟨hout, hexit, ?_⟩
    -- The preamble was written when the plan was settled; the subcommand adds nothing to it.
    show Preamble w argv (dispatch w p.session p.format p.word _).session.level
      (debugLines p.session (loadedMessages p.path?) ++
        (dispatch w p.session p.format p.word _).stderr)
    rw [hsession, herr, List.append_nil]
    exact preamble_of_source hsource

/-- Loading that fails for want of a working directory knows no file either. -/
theorem directory_of_load {w : World} {asked? : Option String} {reason : String}
    (h : w.load asked? = .error (.directory reason)) :
    w.disk.cwd = .error reason ∧ Config.pathOf w.disk.cwd none asked? = .error reason := by
  have hpath := Config.pathOf_of_load h
  rw [Config.pathOf] at hpath
  have hcwd := Passes.error_of_map hpath
  exact ⟨hcwd, by rw [Config.pathOf, hpath]⟩

theorem unread_of_ended {w : World} {s : Session} {argv : List String} {o : Outcome}
    {reason : String} (h : Plans.Ended w s argv o) (hf : o.failure? = some (.plain reason)) :
    Unread w argv (.plain reason) := by
  cases h with
  | @unloaded inv f hflags hc =>
    cases f with
    | settings e => cases hf
    | directory found =>
      obtain rfl := Failure.plain.inj (Option.some.inj hf)
      obtain ⟨hcwd, hpath⟩ := directory_of_load hc
      have hfile : Demand.file? w.disk.cwd argv = none := by
        rw [file?_of_ofArgs hflags, hpath]
        rfl
      exact .directory hcwd hfile
  | _ => cases hf

theorem stdin_of_input {w : World} {reason : String} (h : w.input = .error reason) :
    w.stdin = .error reason ∧ w.stdinIsTerminal = false := by
  unfold World.input at h
  split at h
  · cases h
  · next hterminal =>
    exact ⟨Passes.error_of_map h, Bool.eq_false_iff.mpr hterminal⟩

theorem unread_of_dispatched {w : World} {argv : List String} {p : Plan} {inv : Invocation}
    {c : Config} {o : Outcome} {reason : String} (hs : Plans.Source w argv p inv c)
    (h : Dispatched w p.session p.word (Invocation.passedOn p.args p.positional) o)
    (hf : o.failure? = some (.plain reason)) : Unread w argv (.plain reason) := by
  cases h with
  | unread hword hasked hinput =>
    obtain rfl := Failure.plain.inj (Option.some.inj hf)
    obtain ⟨hstdin, hterminal⟩ := stdin_of_input hinput
    refine .input hstdin hterminal ?_
    rw [hs.positional] at hasked
    simp [Demand.input, hs.flags, hs.words, hword, hasked]
  | _ => cases hf

/-- A run that fails with neither misuse nor a fault of the settings could not read what it needed. -/
theorem unread_of_run {w : World} {s : Session} {argv : List String} {reason : String}
    (h : (run w s argv).failure? = some (.plain reason)) : Unread w argv (.plain reason) := by
  unfold run at h
  cases hp : plan w s argv with
  | error o =>
    rw [hp] at h
    exact unread_of_ended (Plans.ended_of_plan hp) h
  | ok p =>
    rw [hp] at h
    obtain ⟨inv, c, hsource⟩ := Plans.exists_source hp
    exact unread_of_dispatched hsource (dispatched w p.session p.format p.word _) h

/-- Where an error arose, in two strings, if traces are asked for and the error has a stack. -/
def debugStrings (w : World) (s : Session) (c : Cause) : List String :=
  match w.engine.stack c with
  | some stack =>
    if w.env.debug? = some "1" ∧ stack ≠ "" then
      [Terminal.paint (w.hasColor s.color?) .red "\n[DEBUG] Full error:", stack]
    else []
  | none => []

/-- The report of an error in its style, and where it arose. -/
def reported (w : World) (s : Session) (style : Terminal.Style) (c : Cause) : List String :=
  Terminal.paint (w.hasColor s.color?) style
    (Report.of (w.appearance s.color?) ⟨c, w.engine.stack c⟩ none).text :: debugStrings w s c

/-- What is told of a failure under a session: misuse in one line of the log; a fault of the settings
in a report of a warning, any other error in a report of an error. -/
def told (w : World) (s : Session) : Failure → List String
  | .usage e => ["[scanshell] error " ++ e.message]
  | .config e => reported w s .yellow (.config e.message e.path?)
  | .plain reason => reported w s .red (.plain (some reason))

/-- An error passes every threshold. -/
theorem write_error (level : LogLevel) (message : String) :
    Logger.write Logger.defaultLabel level (.error message none) =
      ["[scanshell] error " ++ message] := by
  cases level <;> rfl

theorem traceLines_fault {w : World} {s : Session} {c : Cause} {name : String}
    (hname : c.name? = some name) :
    Report.traceLines (w.appearance s.color?) ((w.appearance s.color?).fault c) =
      debugStrings w s c := by
  have htrace : ((w.appearance s.color?).fault c).trace? =
      (w.engine.stack c).filter fun stack => stack ≠ "" := by
    rw [Fault.trace?, show ((w.appearance s.color?).fault c).cause.name? = some name from hname]
    rfl
  rw [Report.traceLines, htrace, debugStrings]
  cases w.engine.stack c with
  | none => rfl
  | some stack =>
    by_cases hempty : stack = ""
    · simp [hempty, Option.filter_some]
    · simp [hempty, Option.filter_some, World.appearance]

theorem written_fault {w : World} {s : Session} {c : Cause} {name : String}
    (hname : c.name? = some name) :
    (Report.of (w.appearance s.color?) ((w.appearance s.color?).fault c) none).written =
      reported w s (Diagnosis.ofCause c).style c := by
  rw [ReportContext.written_of, traceLines_fault hname]
  rfl

theorem failureLines_eq_told (w : World) (s : Session) (f : Failure) :
    failureLines w s f = told w s f := by
  cases f with
  | usage e => exact write_error s.level e.message
  | config e => exact written_fault rfl
  | plain reason => exact written_fault rfl

/-- What a program makes of a failed run: it adds what is told of the failure and ends with exit
code 1. -/
structure Told (w : World) (o : Outcome) (f : Failure) (whole : Outcome) : Prop where
  stdout : whole.stdout = []
  stderr : whole.stderr = o.stderr ++ told w o.session f
  exitCode : whole.exitCode? = some 1
  failure : whole.failure? = none

/-- A run that fails is misuse, a fault of the settings, or could not read what it needed. It has done
nothing, and the program tells of it. -/
theorem failed_run {w : World} {s : Session} {argv : List String} {f : Failure}
    (h : (run w s argv).failure? = some f) :
    (f.cause.name? = some "CliUsageError" ∨ f.cause.name? = some "ConfigError" ∨
      Unread w argv f) ∧
    NothingDone w argv (run w s argv) ∧ Told w (run w s argv) f (program w s argv) := by
  have hnothing := nothingDone_of_failure h
  have hprogram : program w s argv = .answered (run w s argv).session (run w s argv).stdout
      ((run w s argv).stderr ++ failureLines w (run w s argv).session f) (some 1) := by
    simp only [program, h]
  refine ⟨?_, hnothing, ?_⟩
  · cases f with
    | usage e => exact .inl rfl
    | config e => exact .inr (.inl rfl)
    | plain reason => exact .inr (.inr (unread_of_run h))
  · rw [hprogram, failureLines_eq_told]
    exact ⟨hnothing.stdout, rfl, rfl, rfl⟩

/-- A settings file that has everything logged, at a terminal, with traces asked for. -/
def verbose : World where
  env := ⟨none, none, none, some "1"⟩
  disk := ⟨.ok "/w", fun path =>
    if path = "/w/scanshell.json" then .content "\x7b\"logLevel\": \"debug\"\x7d" else .missing⟩
  stdin := .error "EISDIR: illegal operation on a directory, read"
  stdinIsTerminal := false
  stderrIsTerminal := true
  manifest? := none
  engine := .plain

/-- Misuse is found behind the settings, a file that is asked for and missing before them, and input
that cannot be read behind both. -/
theorem failed_run_verbose :
    ((run verbose .fresh ["parse", "list", "--dry"]).failure? =
        some (.usage (.unknownFlag "--dry")) ∧
      NothingDone verbose ["parse", "list", "--dry"]
        (run verbose .fresh ["parse", "list", "--dry"]) ∧
      (program verbose .fresh ["parse", "list", "--dry"]).stderr =
        ["[scanshell] debug Loaded config from /w/scanshell.json",
          "[scanshell] error Unknown flag '--dry' for 'parse'."]) ∧
    ((run verbose .fresh ["list", "--config", "b.json"]).failure? =
        some (.config (.notFound "/w/b.json")) ∧
      (run verbose .fresh ["list", "--config", "b.json"]).stderr = [] ∧
      (program verbose .fresh ["list", "--config", "b.json"]).stderr.length = 3 ∧
      Told verbose (run verbose .fresh ["list", "--config", "b.json"])
        (.config (.notFound "/w/b.json")) (program verbose .fresh ["list", "--config", "b.json"])) ∧
    (run verbose .fresh ["parse"]).failure? =
        some (.plain "EISDIR: illegal operation on a directory, read") ∧
      NothingDone verbose ["parse"] (run verbose .fresh ["parse"]) ∧
      Told verbose (run verbose .fresh ["parse"])
        (.plain "EISDIR: illegal operation on a directory, read")
        (program verbose .fresh ["parse"]) := by
  have hflag : (run verbose .fresh ["parse", "list", "--dry"]).failure? =
      some (.usage (.unknownFlag "--dry")) := by decide +kernel
  have hfile : (run verbose .fresh ["list", "--config", "b.json"]).failure? =
      some (.config (.notFound "/w/b.json")) := by decide +kernel
  have hinput : (run verbose .fresh ["parse"]).failure? =
      some (.plain "EISDIR: illegal operation on a directory, read") := by decide +kernel
  refine ⟨⟨hflag, (failed_run hflag).2.1, by decide +kernel⟩, ⟨hfile, by decide +kernel,
    by decide +kernel, (failed_run hfile).2.2⟩, hinput, ?_, ?_⟩
  · exact (failed_run hinput).2.1
  · exact (failed_run hinput).2.2

/-- A working directory that has been removed, at a terminal. -/
def adrift : World :=
  { World.empty with
    disk := ⟨.error "ENOENT: no such file or directory, uv_cwd", fun _ => .missing⟩
    stderrIsTerminal := true }

/-- What cannot be read ends a run with an error that is neither of the two; and at a terminal the
report of a fault of the settings is not written as it stands, but in colour. -/
theorem failed_run_elsewhere :
    ((run adrift .fresh ["keywords"]).failure?.bind fun f => f.cause.name?) = some "Error" ∧
    ((run verbose .fresh ["parse"]).failure?.bind fun f => f.cause.name?) = some "Error" ∧
    (run verbose .fresh ["list", "--config", "b.json"]).failure? =
      some (.config (.notFound "/w/b.json")) ∧
    (Report.of (verbose.appearance none)
      ⟨.config "Config file not found: /w/b.json" (some "/w/b.json"), none⟩ none).text ∉
        (program verbose .fresh ["list", "--config", "b.json"]).stderr := by
  refine ⟨?_, ?_, ?_, ?_⟩ <;> decide +kernel

end DeviceShell.Proofs.Failures
