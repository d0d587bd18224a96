import DeviceShell.Proofs.Precedence
import Mathlib.Data.List.TakeWhile

/-!
# Diagnostics stay out of the results

The level of the log, colour and traces are for the reader of the error output. They are settled by
flags, by the environment, by the settings file and by what earlier runs left behind, and a run reads
them at many places. `Result` is all of an outcome that is not for that reader: the results, the exit
code and the failure. `resultOf_run_eq` compares two runs of one command line that have the settings
file in common and may differ in all other sources of these settings: their results are the same. Of
the error output and of the session left behind nothing is said.

The proof forgets diagnostics on the way: `quiet` in the flags, `bare` in the plan. What is left
decides the result.
-/
namespace DeviceShell.Proofs.Diagnostics

open Cli Cli.Args
open Precedence (levelNamed?)

/-- Everything in an outcome but its error output and the session it leaves. -/
structure Result where
  stdout : List String
  exitCode? : Option Nat
  failure? : Option Failure
  deriving DecidableEq, Repr

def resultOf (o : Outcome) : Result := ⟨o.stdout, o.exitCode?, o.failure?⟩

/-- A level of the environment that is not refused: none, a blank one, or the name of one. -/
inductive Tolerated : Option String → Prop
  | unset : Tolerated none
  | blank {given : String} (h : Text.isBlankText given = true) : Tolerated (some given)
  | named {given : String} {level : LogLevel} (h : levelNamed? given = some level) :
      Tolerated (some given)

/-- Two worlds alike but for the terminal of the error output and the variables that are about
diagnostics: the level, the decline of colour and the request for traces. -/
structure AlikeWorlds (w w' : World) : Prop where
  output : w.env.output? = w'.env.output?
  disk : w.disk = w'.disk
  stdin : w.stdin = w'.stdin
  stdinIsTerminal : w.stdinIsTerminal = w'.stdinIsTerminal
  manifest : w.manifest? = w'.manifest?
  engine : w.engine = w'.engine
  level : Tolerated w.env.logLevel?
  level' : Tolerated w'.env.logLevel?

/-- Flags that are about diagnostics, any number of them in any order. -/
inductive DiagnosticFlags : List String → Prop
  | nil : DiagnosticFlags []
  | noColor {flags : List String} (h : DiagnosticFlags flags) :
      DiagnosticFlags ("--no-color" :: flags)
  | level {name : String} {level : LogLevel} {flags : List String}
      (hn : levelNamed? name = some level) (h : DiagnosticFlags flags) :
      DiagnosticFlags ("--log-level" :: name :: flags)

/-- A level that is given, not blank, and not the name of one. -/
def misnamed? (given : Option String) : Option String :=
  given.filter fun s => !Text.isBlankText s && (levelNamed? s).isNone

theorem misnamed?_of_named {name : String} {level : LogLevel} (h : levelNamed? name = some level) :
    misnamed? (some name) = none := by simp [misnamed?, h]

theorem misnamed?_of_tolerated {given : Option String} (h : Tolerated given) :
    misnamed? given = none := by
  cases h with
  | unset => rfl
  | blank hb => simp [misnamed?, hb]
  | named hn => exact misnamed?_of_named hn

/-- A choice among levels fails for a misnamed level and for nothing else, whatever the fallback. -/
theorem choose_of_misnamed? (given : Option String) (fallback : LogLevel) :
    match misnamed? given with
    | some name => LogLevel.choose given fallback = .error ⟨name⟩
    | none => ∃ level, LogLevel.choose given fallback = .ok level := by
  cases given with
  | none => exact ⟨fallback, rfl⟩
  | some s =>
    by_cases hb : Text.isBlankText s = true
    · rw [misnamed?_of_tolerated (.blank hb)]
      exact ⟨fallback, by rw [LogLevel.choose, if_pos hb]⟩
    · cases hn : levelNamed? s with
      | some level =>
        rw [misnamed?_of_named hn]
        rw [levelNamed?] at hn
        exact ⟨level, by rw [LogLevel.choose, if_neg hb, hn]⟩
      | none =>
        have hmis : misnamed? (some s) = some s := by simp [misnamed?, hb, hn]
        rw [levelNamed?] at hn
        rw [hmis, LogLevel.choose, if_neg hb, hn]

theorem mem_dropWhile {c : Char} (hc : Text.isBlank c = false) {cs : List Char} (h : c ∈ cs) :
    c ∈ cs.dropWhile Text.isBlank := by
  rw [← List.takeWhile_append_dropWhile (p := Text.isBlank) (l := cs), List.mem_append] at h
  rcases h with h | h
  · rw [List.mem_takeWhile_imp h] at hc
    cases hc
  · exact h

theorem mem_trimChars {c : Char} (hc : Text.isBlank c = false) {cs : List Char} (h : c ∈ cs) :
    c ∈ Text.trimChars cs := by
  unfold Text.trimChars
  apply List.mem_reverse.mpr
  apply mem_dropWhile hc
  exact List.mem_reverse.mpr (mem_dropWhile hc h)

theorem name_of_ofName? {word : String} {level : LogLevel} (h : LogLevel.ofName? word = some level) :
    level.name = word := by
  have hfound := List.find?_some h
  exact of_decide_eq_true hfound

/-- The name of a level does not look like a flag: no level is written with a hyphen. -/
theorem isFlag_of_levelNamed? {name : String} {level : LogLevel}
    (h : levelNamed? name = some level) : isFlag name = false := by
  by_contra hflag
  rw [Bool.not_eq_false] at hflag
  have hhyphen : '-' ∈ name.toList := by
    obtain ⟨rest, hrest⟩ := Text.hasPrefix_iff.mp hflag
    rw [← hrest]
    exact List.mem_append_left rest (by decide)
  have hnormal : '-' ∈ (LogLevel.normalize name).toList := by
    rw [LogLevel.normalize, Text.trim, String.toList_ofList, String.toList_ofList]
    exact List.mem_map_of_mem (f := Char.toLower) (mem_trimChars (by decide) hhyphen)
  rw [← name_of_ofName? h] at hnormal
  cases level <;> exact absurd hnormal (by decide)

theorem ofArgs_noColor (argv : List String) :
    Invocation.ofArgs ("--no-color" :: argv) =
      (Invocation.ofArgs argv).map fun inv => { inv with noColor := true } := by
  have hkept : extract Invocation.valueFlags ("--no-color" :: (separate argv).flagged) =
      (extract Invocation.valueFlags (separate argv).flagged).keep "--no-color" :=
    Passes.extract_keep (by decide)
  simp only [Invocation.ofArgs, Passes.separate_cons (show "--no-color" ≠ "--" by decide), hkept,
    Pass.result_keep, Pass.rest_keep]
  cases (extract Invocation.valueFlags (separate argv).flagged).result with
  | error e => rfl
  | ok pairs =>
    dsimp only
    rw [Passes.takeOutput_keep (by decide) (by decide), Pass.result_keep, Pass.rest_keep]
    cases (takeOutput (extract Invocation.valueFlags (separate argv).flagged).rest).result with
    | error e => rfl
    | ok format? => rfl

theorem ofArgs_level {name : String} {level : LogLevel} (hn : levelNamed? name = some level)
    (argv : List String) :
    Invocation.ofArgs ("--log-level" :: name :: argv) =
      (Invocation.ofArgs argv).map fun inv => { inv with level? := inv.level?.or (some name) } := by
  have hflag := isFlag_of_levelNamed? hn
  have hname : name ≠ "--" := LastFlag.ne_of_isFlag hflag rfl
  have htaken : extract Invocation.valueFlags ("--log-level" :: name :: (separate argv).flagged) =
      (extract Invocation.valueFlags (separate argv).flagged).map (("--log-level", name) :: ·) :=
    Passes.extract_pair (by decide) hflag
  simp only [Invocation.ofArgs, Passes.separate_cons (show "--log-level" ≠ "--" by decide),
    Passes.separate_cons hname, htaken, Pass.result_map, Pass.rest_map]
  cases (extract Invocation.valueFlags (separate argv).flagged).result with
  | error e => rfl
  | ok pairs =>
    dsimp only [Except.map]
    cases (takeOutput (extract Invocation.valueFlags (separate argv).flagged).rest).result with
    | error e => rfl
    | ok format? =>
      simp only [Passes.valueOf?_cons, String.reduceEq, ↓reduceIte, Option.or_none]

/-- What the flags say apart from diagnostics; a misnamed level is kept, for it will be refused. -/
def quiet (inv : Invocation) : Invocation :=
  { inv with noColor := false, level? := misnamed? inv.level? }

theorem misnamed?_or {name : String} {level : LogLevel} (hn : levelNamed? name = some level)
    (given : Option String) : misnamed? (given.or (some name)) = misnamed? given := by
  cases given with
  | none => exact misnamed?_of_named hn
  | some s => rfl

/-- In front of other arguments, flags that are about diagnostics change nothing else. -/
theorem map_quiet_ofArgs {flags : List String} (h : DiagnosticFlags flags) (argv : List String) :
    (Invocation.ofArgs (flags ++ argv)).map quiet = (Invocation.ofArgs argv).map quiet := by
  induction h with
  | nil => rfl
  | noColor _ ih =>
    rw [List.cons_append, ofArgs_noColor, ← ih]
    cases Invocation.ofArgs _ <;> rfl
  | @level name level flags hn _ ih =>
    rw [List.cons_append, List.cons_append, ofArgs_level hn, ← ih]
    cases Invocation.ofArgs (flags ++ argv) with
    | error e => rfl
    | ok inv => simp only [Except.map, quiet, misnamed?_or hn]

/-- A plan, or the result of a run that ends without one, in no particular session. -/
def bare (planned : Except Outcome Plan) : Except Result Plan :=
  match planned with
  | .error o => .error (resultOf o)
  | .ok p => .ok { p with session := .fresh }

/-- The settings apart from diagnostics. -/
def essence (c : Config) : OutputFormat × Option String := (c.format, c.path?)

theorem map_essence_underEnv {env : Env} (h : Tolerated env.logLevel?) (c : Config) :
    (Config.underEnv env c).map essence =
      (Config.formatOf env.output? c.format).map fun format => (format, c.path?) := by
  have hchoose := choose_of_misnamed? env.logLevel? c.level
  rw [misnamed?_of_tolerated h] at hchoose
  obtain ⟨level, hlevel⟩ := hchoose
  rw [Config.underEnv, hlevel]
  cases Config.formatOf env.output? c.format <;> rfl

theorem map_essence_load {w w' : World} (h : AlikeWorlds w w') (asked? : Option String) :
    (w.load asked?).map essence =
      (w'.load asked?).map essence := by
  have hmap : ∀ x : Except Config.Error Config,
      (x.mapError Config.Failure.settings).map essence = (x.map essence).mapError .settings := by
    intro x
    cases x <;> rfl
  rw [World.load, World.load, h.disk, h.engine, Config.load, Config.load]
  cases Config.pathOf w'.disk.cwd none asked? with
  | error reason => rfl
  | ok path =>
    dsimp only
    rw [hmap, hmap, Config.loadAt, Config.loadAt]
    cases Config.ofFile w'.engine.validator w'.engine.syntaxMessage w'.disk path asked?.isSome with
    | error e => rfl
    | ok settings? =>
      show ((Config.underEnv w.env _).map essence).mapError _ =
        ((Config.underEnv w'.env _).map essence).mapError _
      rw [map_essence_underEnv h.level, map_essence_underEnv h.level', h.output]

/-- A plan under settings hangs on the essence of the settings and on the quiet flags. -/
theorem bare_planUnder (inv : Invocation) (c : Config) (word : String) (args : List String) :
    bare (planUnder inv c word args) =
      match (quiet inv).level? with
      | some name => .error ⟨[], none, some (.usage (.unknownLevel ⟨name⟩))⟩
      | none => .ok ⟨.fresh, (essence c).2, (quiet inv).format?.getD (essence c).1, word, args,
          (quiet inv).positional⟩ := by
  have hchoose := choose_of_misnamed? inv.level? c.level
  unfold planUnder quiet
  cases hm : misnamed? inv.level? with
  | some name =>
    rw [hm] at hchoose
    dsimp only at hchoose ⊢
    rw [hchoose]
    rfl
  | none =>
    rw [hm] at hchoose
    obtain ⟨level, hlevel⟩ := hchoose
    rw [hlevel]
    rfl

theorem bare_planInvocation {w w' : World} (hw : AlikeWorlds w w') (s s' : Session)
    {inv inv' : Invocation} (h : quiet inv = quiet inv') :
    bare (planInvocation w s inv) = bare (planInvocation w' s' inv') := by
  obtain ⟨hconfig, -, -, -, hwords, -⟩ := Invocation.mk.inj h
  have hload := map_essence_load hw inv.configPath?
  rw [planInvocation, planInvocation, ← hwords]
  cases inv.words with
  | nil => rfl
  | cons word args =>
    dsimp only
    split
    · rfl
    split
    · rfl
    split
    · show Except.error (resultOf _) = Except.error (resultOf _)
      rw [hw.manifest]
      rfl
    rw [hconfig] at hload ⊢
    cases hl : w.load inv'.configPath? with
    | error e =>
      cases hl' : w'.load inv'.configPath? with
      | error e' =>
        rw [hl, hl'] at hload
        obtain rfl := Except.error.inj hload
        rfl
      | ok c' => rw [hl, hl'] at hload; cases hload
    | ok c =>
      cases hl' : w'.load inv'.configPath? with
      | error e' => rw [hl, hl'] at hload; cases hload
      | ok c' =>
        rw [hl, hl'] at hload
        dsimp only
        rw [bare_planUnder, bare_planUnder, h, Except.ok.inj hload]

/-- Reading flags comes first, and no arguments are read like arguments without a word. -/
theorem bare_plan (w : World) (s : Session) (argv : List String) :
    bare (plan w s argv) =
      match Invocation.ofArgs argv with
      | .error e => .error ⟨[], none, some (.usage e)⟩
      | .ok inv => bare (planInvocation w { s with color? := flagColor inv } inv) := by
  cases argv with
  | nil => rfl
  | cons arg args =>
    unfold plan
    rw [List.isEmpty_cons, if_neg Bool.false_ne_true]
    cases Invocation.ofArgs (arg :: args) <;> rfl

/-- Alike plans: with alike worlds, flags for diagnostics in front change no plan. -/
theorem bare_plan_eq {w w' : World} (hw : AlikeWorlds w w') (s s' : Session)
    {argv argv' : List String}
    (h : (Invocation.ofArgs argv).map quiet = (Invocation.ofArgs argv').map quiet) :
    bare (plan w s argv) = bare (plan w' s' argv') := by
  rw [bare_plan, bare_plan]
  cases hi : Invocation.ofArgs argv with
  | error e =>
    cases hi' : Invocation.ofArgs argv' with
    | error e' =>
      rw [hi, hi'] at h
      obtain rfl := Except.error.inj h
      rfl
    | ok inv' => rw [hi, hi'] at h; cases h
  | ok inv =>
    cases hi' : Invocation.ofArgs argv' with
    | error e' => rw [hi, hi'] at h; cases h
    | ok inv' =>
      rw [hi, hi'] at h
      exact bare_planInvocation hw _ _ (Except.ok.inj h)

theorem resultOf_runParse {w w' : World} (hinput : w.input = w'.input) (s s' : Session)
    (format : OutputFormat) (args : List String) :
    resultOf (runParse w s format args) = resultOf (runParse w' s' format args) := by
  have hasked : inputFor w args = inputFor w' args := by rw [inputFor, inputFor, hinput]
  rw [runParse, runParse, hasked]
  cases inputFor w' args with
  | error reason => rfl
  | ok input =>
    dsimp only
    rw [Parse.run, Parse.run]
    cases Parse.request format input args with
    | error e => rfl
    | ok r =>
      obtain ⟨format, lines⟩ := r
      cases format <;> rfl

theorem resultOf_dispatch {w w' : World} (hinput : w.input = w'.input) (s s' : Session)
    (format : OutputFormat) (word : String) (args : List String) :
    resultOf (dispatch w s format word args) = resultOf (dispatch w' s' format word args) := by
  unfold dispatch
  cases Subcommand.ofWord? word with
  | none => rfl
  | some sub =>
    cases sub with
    | parse => exact resultOf_runParse hinput s s' format args
    | complete =>
      show resultOf (runComplete s format args) = resultOf (runComplete s' format args)
      unfold runComplete
      cases Catalogue.complete format args <;> rfl
    | keywords =>
      show resultOf (runKeywords s format args) = resultOf (runKeywords s' format args)
      unfold runKeywords
      cases (Catalogue.keywords format args).result <;> rfl

/-- The result of a run is that of its bare plan. -/
theorem resultOf_run {w w' : World} (hinput : w.input = w'.input) (s : Session)
    (argv : List String) :
    resultOf (run w s argv) =
      match bare (plan w s argv) with
      | .error r => r
      | .ok p => resultOf (p.carryOut w') := by
  rw [run]
  cases plan w s argv with
  | error o => rfl
  | ok p => exact resultOf_dispatch hinput p.session .fresh p.format p.word _

theorem input_eq {w w' : World} (h : AlikeWorlds w w') : w.input = w'.input := by
  rw [World.input, World.input, h.stdin, h.stdinIsTerminal]

/-- Two runs that differ only in diagnostics, by their worlds, by their sessions or by flags in
front, have one result. -/
theorem resultOf_run_eq {w w' : World} (s s' : Session) {flags flags' : List String}
    (argv : List String) (hw : AlikeWorlds w w') (hf : DiagnosticFlags flags)
    (hf' : DiagnosticFlags flags') :
    resultOf (run w s (flags ++ argv)) = resultOf (run w' s' (flags' ++ argv)) := by
  have hflags := (map_quiet_ofArgs hf argv).trans (map_quiet_ofArgs hf' argv).symm
  rw [resultOf_run (input_eq hw) s, bare_plan_eq hw s s' hflags]
  exact (resultOf_run rfl s' (flags' ++ argv)).symm

/-- Everything that asks for diagnostics is set. -/
def loud : World :=
  { World.empty with env := ⟨some " Debug ", none, some "", some "1"⟩, stderrIsTerminal := true }

/-- Nothing asks for them, and colour is declined. -/
def faint : World := { World.empty with env := ⟨some " ", none, some "1", none⟩ }

/-- One line that is accepted and one that is reported: the error outputs differ, the results do
not. -/
theorem resultOf_run_eq_loud :
    AlikeWorlds loud faint ∧ DiagnosticFlags ["--log-level", "DEBUG", "--no-color"] ∧
    DiagnosticFlags [] ∧
    (run loud ⟨.error, some true⟩
      ["--log-level", "DEBUG", "--no-color", "parse", "list", "exit now"]).stderr.length ≠
        (run faint .fresh ["parse", "list", "exit now"]).stderr.length ∧
    resultOf (run loud ⟨.error, some true⟩
      ["--log-level", "DEBUG", "--no-color", "parse", "list", "exit now"]) =
        resultOf (run faint .fresh ["parse", "list", "exit now"]) ∧
    resultOf (run faint .fresh ["parse", "list", "exit now"]) = ⟨["list"], some 1, none⟩ := by
  have hnamed : levelNamed? " Debug " = some .debug := by decide +kernel
  have hupper : levelNamed? "DEBUG" = some .debug := by decide +kernel
  have hworlds : AlikeWorlds loud faint :=
    ⟨rfl, rfl, rfl, rfl, rfl, rfl, .named hnamed, .blank (by decide)⟩
  have hflags : DiagnosticFlags ["--log-level", "DEBUG", "--no-color"] :=
    .level hupper (.noColor .nil)
  refine ⟨hworlds, hflags, .nil, by decide +kernel, ?_, by decide +kernel⟩
  exact resultOf_run_eq ⟨.error, some true⟩ .fresh ["parse", "list", "exit now"] hworlds hflags .nil

end DeviceShell.Proofs.Diagnostics
