import DeviceShell.Proofs.LastFlag
import DeviceShell.Proofs.Separator
import Mathlib.Control.Monad.Basic

/-!
# Which source of a setting wins

Level, format and colour may each be given by a flag, by the environment and by the settings file.
`level?`, `format?` and `hasColor` say what is to be in force, each read straight off these sources:
the flags from the arguments, the fields from the file. A run merges the sources in several steps,
some of which read what an earlier one has left behind. `settings_in_force` says that for every run
that reaches its subcommand the merged settings are these, whatever session the run started from.
Of a run that ends before its subcommand nothing is said.
-/
namespace DeviceShell.Proofs.Precedence

open Cli
open LastFlag (lastFormat? lastValue? withoutPairs)
open Config (Shape.Field)

/-- The path of the settings file: what the last flag asks for, or the default one. -/
def filePath (w : World) (argv : List String) : Option String :=
  w.disk.cwd.toOption.map fun directory =>
    Path.resolve [directory, (lastValue? "--config" argv).getD Config.defaultFile]

/-- The document at a path, if there is a file and it is JSON. -/
def document? (disk : Disk) (path : String) : Option Json :=
  match disk.read path with
  | .content text => Json.read? text
  | .failed _ _ => none

/-- The document in the settings file. -/
def fileDocument? (w : World) (argv : List String) : Option Json :=
  (filePath w argv).bind (document? w.disk)

/-- What a document says in one of its fields. -/
def fieldOf {α : Type} (document? : Option Json) (which : Shape.Field) (value? : Json → Option α) :
    Option α :=
  (document?.bind (Json.field? which.name)).bind value?

/-- What the settings file says in one of its fields. -/
def fileField {α : Type} (w : World) (argv : List String) (which : Shape.Field)
    (value? : Json → Option α) : Option α :=
  fieldOf (fileDocument? w argv) which value?

/-- A text that is given and not blank. -/
def filled? (given : Option String) : Option String :=
  given.filter fun s => !Text.isBlankText s

/-- A text without the blanks around it, if anything is left. -/
def trimmed? (given : Option String) : Option String :=
  (given.map Text.trim).filter fun s => s ≠ ""

def levelNamed? (name : String) : Option LogLevel := LogLevel.ofName? (LogLevel.normalize name)

/-- The level: by the last flag, else the environment, else the file, else warnings. -/
def level? (w : World) (argv : List String) : Option LogLevel :=
  match (filled? (lastValue? "--log-level" argv)).or (filled? w.env.logLevel?) with
  | some name => levelNamed? name
  | none => some ((fileField w argv .logLevel Config.Shape.level?).getD .warn)

/-- The format: by the last flag, else the environment, else the file, else plain text. -/
def format? (w : World) (argv : List String) : Option OutputFormat :=
  match lastFormat? (withoutPairs Invocation.valueFlags argv), trimmed? w.env.output? with
  | some format, _ => some format
  | none, some name => OutputFormat.ofName? name
  | none, none => some ((fileField w argv .output Config.Shape.format?).getD .text)

/-- Colour: never against the switch or the environment, else by the file, else by the terminal. -/
def hasColor (w : World) (argv : List String) : Bool :=
  if "--no-color" ∈ argv ∨ Config.isSet w.env.noColor? then false
  else (fileField w argv .color Config.Shape.color?).getD w.stderrIsTerminal

/-- The defaults under a file say what its document says. -/
structure UnderFile (document? : Option Json) (c : Config) : Prop where
  level : c.level = (fieldOf document? .logLevel Config.Shape.level?).getD .warn
  format : c.format = (fieldOf document? .output Config.Shape.format?).getD .text
  color : c.color? = fieldOf document? .color Config.Shape.color?

theorem underFile_of_ofFile {v : Config.Shape.Validator} (hv : v.Lawful)
    {syntaxMessage : String → String} {disk : Disk} {path : String} {required : Bool}
    {settings? : Option Config.Shape.Settings}
    (h : Config.ofFile v syntaxMessage disk path required = .ok settings?) :
    UnderFile (document? disk path) (Config.underFile path settings?) := by
  rcases Config.source_of_ofFile h with ⟨rfl, reason, hr⟩ | ⟨text, root, out, hr, hj, hc, rfl⟩
  · have hnone : document? disk path = none := by rw [document?, hr]
    constructor <;> rw [hnone] <;> rfl
  · have hroot : document? disk path = some root := by rw [document?, hr]; exact hj
    rw [hroot, hv.settings_of hc]
    constructor <;> rfl

theorem filled?_of_blank {s : String} (h : Text.isBlankText s = true) :
    filled? (some s) = none := by simp [filled?, h]

theorem filled?_of_not_blank {s : String} (h : Text.isBlankText s = false) :
    filled? (some s) = some s := by simp [filled?, h]

/-- A choice among levels is settled by its name, or by the fallback if the name is blank. -/
theorem choose_eq_ok {given : Option String} {fallback level : LogLevel}
    (h : LogLevel.choose given fallback = .ok level) :
    (filled? given).elim (some fallback) levelNamed? = some level := by
  cases given with
  | none => rw [← Except.ok.inj h]; rfl
  | some s =>
    rw [LogLevel.choose] at h
    split at h
    · next hb =>
      rw [filled?_of_blank hb, ← Except.ok.inj h]
      rfl
    · next hb =>
      rw [filled?_of_not_blank (Bool.eq_false_iff.mpr hb), Option.elim_some, levelNamed?]
      cases hn : LogLevel.ofName? (LogLevel.normalize s) with
      | none => rw [hn] at h; cases h
      | some found =>
        rw [hn] at h
        rw [Except.ok.inj h]

theorem formatOf_eq_ok {given : Option String} {fallback format : OutputFormat}
    (h : Config.formatOf given fallback = .ok format) :
    (trimmed? given).elim (some fallback) OutputFormat.ofName? = some format := by
  have htrim : trimmed? given =
      if Text.trim (given.getD "") = "" then none else some (Text.trim (given.getD "")) := by
    cases given with
    | none => rfl
    | some s => by_cases hs : Text.trim s = "" <;> simp [trimmed?, hs]
  simp only [Config.formatOf] at h
  rw [htrim]
  split at h
  · next he =>
    rw [if_pos he, ← Except.ok.inj h]
    rfl
  · next he =>
    rw [if_neg he, Option.elim_some]
    cases hn : OutputFormat.ofName? (Text.trim (given.getD "")) with
    | none => rw [hn] at h; cases h
    | some found =>
      rw [hn] at h
      rw [Except.ok.inj h]

/-- What the environment makes of the settings under it. -/
structure UnderEnv (env : Env) (base c : Config) : Prop where
  level : (filled? env.logLevel?).elim (some base.level) levelNamed? = some c.level
  format : (trimmed? env.output?).elim (some base.format) OutputFormat.ofName? = some c.format
  color : c.color? = if Config.isSet env.noColor? then some false else base.color?

theorem underEnv_of_eq_ok {env : Env} {base c : Config} (h : Config.underEnv env base = .ok c) :
    UnderEnv env base c := by
  rw [Config.underEnv] at h
  cases hl : LogLevel.choose env.logLevel? base.level with
  | error unknown => rw [hl] at h; cases h
  | ok level =>
    rw [hl] at h
    cases hf : Config.formatOf env.output? base.format with
    | error e => rw [hf] at h; cases h
    | ok format =>
      rw [hf] at h
      obtain rfl := Except.ok.inj h
      exact ⟨choose_eq_ok hl, formatOf_eq_ok hf, rfl⟩

/-- The flags of a run as they stand in its arguments. -/
structure FlagsOf (argv : List String) (inv : Invocation) : Prop where
  config : inv.configPath? = lastValue? "--config" argv
  level : inv.level? = lastValue? "--log-level" argv
  format : inv.format? = lastFormat? (withoutPairs Invocation.valueFlags argv)
  color : inv.noColor = true ↔ "--no-color" ∈ argv
  positional : inv.positional = []

theorem flagsOf_of_ofArgs {argv : List String} {inv : Invocation} (hsep : "--" ∉ argv)
    (h : Invocation.ofArgs argv = .ok inv) : FlagsOf argv inv := by
  obtain ⟨pairs, hp⟩ := Plans.exists_passed h
  have hside := Passes.separate_of_not_mem hsep
  have hvalues := hp.values
  have hformat := hp.format
  have hswitch := congrArg Prod.fst hp.switch
  rw [hside] at hvalues hformat hswitch
  have hnames := LastFlag.flagNames_valueFlags
  constructor
  · rw [hp.config, LastFlag.valueOf?_extract hnames (by decide) hvalues]
  · rw [hp.level, LastFlag.valueOf?_extract hnames (by decide) hvalues]
  · rw [LastFlag.takeOutput_result hformat, LastFlag.extract_rest hvalues]
  · have hleft : inv.noColor = true ↔ "--no-color" ∈ (Args.takeOutput
        (Args.extract Invocation.valueFlags argv).rest).rest := by
      change inv.noColor = List.contains _ _ at hswitch
      rw [hswitch, List.contains_iff_mem]
    rw [hleft, LastFlag.mem_rest_takeOutput rfl (by decide) (by decide) hformat,
      LastFlag.mem_withoutPairs rfl (by decide) hvalues]
  · rw [hp.positional, hside]

theorem filePath_of_pathOf {w : World} {argv : List String} {inv : Invocation} {path : String}
    (hf : FlagsOf argv inv) (h : Config.pathOf w.disk.cwd none inv.configPath? = .ok path) :
    filePath w argv = some path := by
  rw [Config.pathOf, hf.config] at h
  rw [filePath]
  cases hcwd : w.disk.cwd with
  | error reason => rw [hcwd] at h; cases h
  | ok directory =>
    rw [hcwd] at h
    exact congrArg some (Except.ok.inj h)

/-- The settings that a run loads: the file that its flags ask for, under the environment. -/
theorem exists_base_of_load {w : World} {argv : List String} {inv : Invocation} {c : Config}
    (hf : FlagsOf argv inv) (h : w.load inv.configPath? = .ok c) :
    ∃ base, UnderFile (fileDocument? w argv) base ∧ UnderEnv w.env base c := by
  obtain ⟨path, settings?, hpath, hfile, henv⟩ := Config.steps_of_load h
  have hdocument : fileDocument? w argv = document? w.disk path := by
    rw [fileDocument?, filePath_of_pathOf hf hpath, Option.bind_some]
  refine ⟨_, ?_, underEnv_of_eq_ok henv⟩
  rw [hdocument]
  exact underFile_of_ofFile w.engine.lawful hfile

theorem session_obeyParse (w : World) (p : Plan) :
    (Separator.obeyParse w p).session = p.session := by
  rw [Separator.obeyParse]
  cases Separator.operandInput w p with
  | error reason => rfl
  | ok input =>
    dsimp only
    cases (Separator.parseOperands input p).map
        (Parse.respond (w.appearance p.session.color?)) with
    | error e => rfl
    | ok r => rfl

/-- A subcommand leaves the session as it was put in force. -/
theorem session_obey (w : World) (p : Plan) : (Separator.obey w p).session = p.session := by
  rw [Separator.obey, Outcome.after]
  cases Subcommand.ofWord? p.word with
  | none => rfl
  | some sub =>
    cases sub with
    | parse => exact session_obeyParse w p
    | complete =>
      cases Separator.completeOperand p with
      | error e => rfl
      | ok r => rfl
    | keywords => rfl

theorem run_eq_obey {w : World} {s : Session} {argv : List String} {p : Plan}
    (hsep : "--" ∉ argv) (h : plan w s argv = .ok p) : run w s argv = Separator.obey w p := by
  obtain ⟨inv, c, hs⟩ := Plans.exists_source h
  have hpos : p.positional = [] := by
    rw [hs.positional, (flagsOf_of_ofArgs hsep hs.flags).positional]
  rw [Separator.run_eq_carryOut h, Separator.carryOut_eq_obey_iff (Plans.clean_of_plan h)]
  intro _
  rw [hpos]
  exact .inl Passes.noFormatFlag_nil

theorem level?_eq {w : World} {argv : List String} {inv : Invocation} {base c : Config}
    {level : LogLevel} (hf : FlagsOf argv inv) (hb : UnderFile (fileDocument? w argv) base)
    (he : UnderEnv w.env base c) (h : LogLevel.choose inv.level? c.level = .ok level) :
    level? w argv = some level := by
  have hflag := choose_eq_ok h
  have henv := he.level
  rw [hf.level] at hflag
  rw [level?]
  cases hname : filled? (lastValue? "--log-level" argv) with
  | some name =>
    rw [hname, Option.elim_some] at hflag
    rw [Option.some_or]
    exact hflag
  | none =>
    rw [hname, Option.elim_none] at hflag
    rw [Option.none_or, ← hflag, ← henv]
    cases filled? w.env.logLevel? with
    | some name => rw [Option.elim_some]
    | none =>
      rw [Option.elim_none, hb.level]
      rfl

theorem format?_eq {w : World} {argv : List String} {inv : Invocation} {base c : Config}
    (hf : FlagsOf argv inv) (hb : UnderFile (fileDocument? w argv) base)
    (he : UnderEnv w.env base c) : format? w argv = some (inv.format?.getD c.format) := by
  have henv := he.format
  rw [format?, ← hf.format]
  cases inv.format? with
  | some format => rw [Option.getD_some]
  | none =>
    rw [Option.getD_none, ← henv]
    cases trimmed? w.env.output? with
    | some name => rw [Option.elim_some]
    | none =>
      rw [Option.elim_none, hb.format]
      rfl

theorem hasColor_eq {w : World} {argv : List String} {inv : Invocation} {base c : Config}
    (hf : FlagsOf argv inv) (hb : UnderFile (fileDocument? w argv) base)
    (he : UnderEnv w.env base c) :
    w.hasColor ((flagColor inv).or c.color?) = hasColor w argv := by
  rw [World.hasColor, Terminal.hasColor, flagColor, he.color, hb.color, hasColor]
  by_cases hswitch : "--no-color" ∈ argv
  · rw [if_pos (hf.color.mpr hswitch), if_pos (Or.inl hswitch), Option.some_or, Option.getD_some]
  · have hoff : ¬ inv.noColor = true := fun h => hswitch (hf.color.mp h)
    rw [if_neg hoff, Option.none_or]
    cases hset : Config.isSet w.env.noColor? with
    | true => rw [if_pos rfl, if_pos (Or.inr rfl), Option.getD_some]
    | false =>
      rw [if_neg Bool.false_ne_true, if_neg (by simp [hswitch]), Bool.not_false, Bool.true_and]
      rfl

/-- A run that reaches its subcommand leaves in force, and carries the subcommand out under, the
settings of the first source that speaks. -/
theorem settings_in_force {w : World} {s : Session} {argv : List String} {p : Plan}
    (hsep : "--" ∉ argv) (h : plan w s argv = .ok p) :
    level? w argv = some (run w s argv).session.level ∧
    (format? w argv = some p.format ∧ run w s argv = Separator.obey w p) ∧
    w.hasColor (run w s argv).session.color? = hasColor w argv := by
  obtain ⟨inv, c, hs⟩ := Plans.exists_source h
  have hf := flagsOf_of_ofArgs hsep hs.flags
  obtain ⟨base, hb, he⟩ := exists_base_of_load hf hs.settings
  have hrun := run_eq_obey hsep h
  have hsession : (run w s argv).session = p.session := by rw [hrun, session_obey]
  refine ⟨?_, ⟨?_, hrun⟩, ?_⟩
  · rw [hsession]
    exact level?_eq hf hb he hs.level
  · rw [hs.format]
    exact format?_eq hf hb he
  · rw [hsession, hs.color]
    exact hasColor_eq hf hb he

/-- A file that all sources stand over: it names a level and a colour, and no format. -/
def layered : World where
  env := ⟨some " Debug ", some "text", some "", none⟩
  disk := ⟨.ok "/w", fun path =>
    if path = "/w/b.json" then .content "\x7b\"logLevel\": \"error\", \"color\": true\x7d"
    else .missing⟩
  stdin := .ok []
  stdinIsTerminal := true
  stderrIsTerminal := false
  manifest? := none
  engine := .plain

/-- Two files are asked for, a format flag stands before its value with another flag in between, and
the last level is blank. -/
def layeredArgs : List String :=
  ["--config", "a.json", "keywords", "--output", "--config", "b.json", "json", "--log-level", " "]

theorem load_layered : layered.load (some "b.json") =
    .ok ⟨.debug, .text, some true, some "/w/b.json"⟩ := by
  have hfile : Config.ofFile layered.engine.validator layered.engine.syntaxMessage layered.disk
      "/w/b.json" true = .ok (some ⟨some .error, none, some true⟩) := by decide +kernel
  have hpath : Config.pathOf layered.disk.cwd none (some "b.json") = .ok "/w/b.json" := by
    decide +kernel
  rw [World.load, Config.load, hpath]
  simp only [Config.loadAt, Option.isSome_some, hfile]
  rfl

theorem plan_layered (s : Session) : plan layered s layeredArgs =
    .ok ⟨⟨.debug, some true⟩, some "/w/b.json", .json, "keywords", [], []⟩ := by
  have hflags : Invocation.ofArgs layeredArgs =
      .ok ⟨some "b.json", some " ", some .json, false, ["keywords"], []⟩ := by decide +kernel
  rw [plan, hflags]
  simp only [planInvocation, load_layered]
  rfl

/-- The environment wins over the file for the level, the flag over the environment for the format,
and an empty decline leaves the colour to the file. -/
theorem settings_in_force_layered :
    "--" ∉ layeredArgs ∧
    plan layered ⟨.error, some false⟩ layeredArgs =
      .ok ⟨⟨.debug, some true⟩, some "/w/b.json", .json, "keywords", [], []⟩ ∧
    (run layered ⟨.error, some false⟩ layeredArgs).session.level = .debug ∧
    format? layered layeredArgs = some .json ∧
    layered.hasColor (run layered ⟨.error, some false⟩ layeredArgs).session.color? = true := by
  have hlevel : level? layered layeredArgs = some .debug := by decide +kernel
  have hcolor : hasColor layered layeredArgs = true := by decide +kernel
  have hplan := plan_layered ⟨.error, some false⟩
  obtain ⟨hl, ⟨hf, -⟩, hc⟩ := settings_in_force (by decide) hplan
  refine ⟨by decide, hplan, ?_, hf, hc.trans hcolor⟩
  exact (Option.some.inj (hlevel.symm.trans hl)).symm

end DeviceShell.Proofs.Precedence
