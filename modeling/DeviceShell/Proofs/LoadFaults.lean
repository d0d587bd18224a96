import DeviceShell.Config.Load
import DeviceShell.Config.Validator
import DeviceShell.Report.Fault
import Mathlib.Control.Monad.Basic
import Mathlib.Data.List.Forall2

/-!
# The fault that loading reports

Five things can be wrong with the settings, and several of them at once; and before any of them is looked
at, the directory that the path of the file hangs on may be gone. `FaultAt` says of each of these when it
is there and what is told of it, straight off the directory, the file, the way it was asked for, and the
environment, and without regard to the others. Loading fails exactly when one of them is there, and the
error is that of the first stage at which one is: nothing that lies behind a fault is looked at, and no
fault hides an earlier one.

What a text that is no JSON and a document of another shape are told in is not settled here. Which documents
have the shape, and to which fields the details of the others belong, is settled by the laws of the
validator.
-/
namespace DeviceShell.Proofs.LoadFaults

open Config (Error)
open Config.Shape (Entry Issue Leaf Validator entries isRecord)

/-- Where loading can fail, in the order of its steps. -/
inductive Stage where
  | directory
  | reading
  | absence
  | shape
  | level
  | format
  deriving DecidableEq, Repr

/-- What can be at fault: the file, from the way to it to its shape, or one of two variables of the
environment. -/
inductive Source where
  | file
  | level
  | format
  deriving DecidableEq, Repr

namespace Stage

def rank : Stage → Nat
  | .directory => 0
  | .reading => 1
  | .absence => 2
  | .shape => 3
  | .level => 4
  | .format => 5

/-- What is at fault. -/
def source : Stage → Source
  | .directory | .reading | .absence | .shape => .file
  | .level => .level
  | .format => .format

end Stage

def levelNames : List String := ["debug", "info", "warn", "error"]

def formatNames : List String := ["text", "json"]

/-- What a known field of the file may hold. -/
structure Rule where
  field : String
  admits : Json → Bool

def oneOf (names : List String) : Json → Bool
  | .str s => names.contains s
  | _ => false

def isBoolean : Json → Bool
  | .bool _ => true
  | _ => false

def rules : List Rule :=
  [⟨"logLevel", oneOf levelNames⟩, ⟨"output", oneOf formatNames⟩, ⟨"color", isBoolean⟩]

/-- The field is there and holds something else; null is something. -/
def Rule.broken (r : Rule) (root : Json) : Bool :=
  match root.field? r.field with
  | none => false
  | some value => !r.admits value

/-- The document has another shape: it breaks a rule, or is nothing to look for fields in. An array counts
as an object without them. -/
def Misshapen : Json → Prop
  | .obj fields => ∃ r ∈ rules, r.broken (.obj fields) = true
  | .arr items => ∃ r ∈ rules, r.broken (.arr items) = true
  | _ => True

/-- The details that are told of a document. -/
def details (v : Validator) (root : Json) : List String :=
  match v.check entries root with
  | .ok _ => []
  | .error issues => issues.map Issue.detail

/-- Details that fit a document: one for each rule that is broken, in the order of the rules and beginning
with the field, or a single one about what has no fields. -/
inductive Fit : Json → List String → Prop
  | fields {root : Json} {told : List String} (hr : isRecord root = true)
      (h : List.Forall₂ (fun r detail => ∃ words, detail = r.field ++ ": " ++ words)
        (rules.filter fun r => r.broken root) told) : Fit root told
  | whole {root : Json} {detail : String} (hr : isRecord root = false) : Fit root [detail]

/-- What an error tells a caller. -/
structure Told where
  name? : Option String
  message : String
  path? : Option String
  hasCause : Bool
  deriving DecidableEq, Repr

def toldOf : Config.Failure → Told
  | .settings e => ⟨e.cause.name?, e.message, e.path?, e.hasCause⟩
  | .directory reason => ⟨(Cause.plain (some reason)).name?, reason, none, false⟩

/-- What is told of a fault of the settings: its file if it has one, and whether another fault was its
cause. -/
def Told.ofSettings (path? : Option String) (hasCause : Bool) (message : String) : Told :=
  ⟨some "ConfigError", message, path?, hasCause⟩

/-- The path to the file hangs on the working directory: there is no root, or root and file are both
relative. -/
def NeedsDirectory (root? asked? : Option String) : Prop :=
  ∀ root, root? = some root → Path.isAbsolute root = false ∧
    Path.isAbsolute (asked?.getD Config.defaultFile) = false

section Stages

variable (v : Validator) (syntaxMessage : String → String) (disk : Disk) (env : Env)
  (root? asked? : Option String)

/-- At a stage something is wrong, and this is told of it. -/
inductive FaultAt : Stage → Told → Prop
  | directory {reason : String} (hneeds : NeedsDirectory root? asked?)
      (h : disk.cwd = .error reason) : FaultAt .directory ⟨some "Error", reason, none, false⟩
  | unreadable {path reason : String} {code? : Option String}
      (hp : Config.pathOf disk.cwd root? asked? = .ok path)
      (h : disk.read path = .failed code? reason) (hcode : code? ≠ some "ENOENT") :
      FaultAt .reading
        (.ofSettings (some path) true ("Unable to read config " ++ path ++ ": " ++ reason))
  | noJson {path text : String} (hp : Config.pathOf disk.cwd root? asked? = .ok path)
      (h : disk.read path = .content text) (hj : Json.read? text = none) :
      FaultAt .reading (.ofSettings (some path) true
        ("Unable to read config " ++ path ++ ": " ++ syntaxMessage text))
  | absent {path reason : String} (hp : Config.pathOf disk.cwd root? asked? = .ok path)
      (h : disk.read path = .failed (some "ENOENT") reason) (ha : asked? ≠ none) :
      FaultAt .absence (.ofSettings (some path) false ("Config file not found: " ++ path))
  | misshapen {path text : String} {root : Json}
      (hp : Config.pathOf disk.cwd root? asked? = .ok path) (h : disk.read path = .content text)
      (hj : Json.read? text = some root) (hm : Misshapen root) :
      FaultAt .shape (.ofSettings (some path) false
        ("Invalid config " ++ path ++ ": " ++ "; ".intercalate (details v root)))
  | level {given : String} (h : env.logLevel? = some given) (hb : Text.trim given ≠ "")
      (hn : LogLevel.normalize given ∉ levelNames) :
      FaultAt .level (.ofSettings none true
        ("SCANSHELL_LOG_LEVEL: Invalid log level '" ++ given ++
          "'. Expected one of: debug, info, warn, error."))
  | format {given : String} (h : env.output? = some given) (hb : Text.trim given ≠ "")
      (hn : Text.trim given ∉ formatNames) :
      FaultAt .format (.ofSettings none false
        ("SCANSHELL_OUTPUT must be one of: text, json (got '" ++ Text.trim given ++ "')."))

/-- The first stage at which something is wrong. -/
structure FirstFault (stage : Stage) (told : Told) : Prop where
  here : FaultAt v syntaxMessage disk env root? asked? stage told
  first : ∀ (other : Stage) (otherTold : Told),
    FaultAt v syntaxMessage disk env root? asked? other otherTold → stage.rank ≤ other.rank

end Stages

/-- A word is looked up among named things exactly when it is one of their names. -/
theorem isSome_find?_named {α : Type} (name : α → String) (all : List α) (word : String) :
    (all.find? fun a => name a = word).isSome = (all.map name).contains word := by
  rw [Bool.eq_iff_iff, List.contains_iff_mem, List.find?_isSome, List.mem_map]
  simp only [decide_eq_true_eq]

theorem levelOfName?_eq_none_iff {word : String} :
    LogLevel.ofName? word = none ↔ word ∉ levelNames := by
  have hfound : (LogLevel.ofName? word).isSome = levelNames.contains word :=
    isSome_find?_named LogLevel.name LogLevel.all word
  rw [← Option.not_isSome_iff_eq_none, hfound, List.contains_iff_mem]

theorem formatOfName?_eq_none_iff {word : String} :
    OutputFormat.ofName? word = none ↔ word ∉ formatNames := by
  have hfound : (OutputFormat.ofName? word).isSome = formatNames.contains word :=
    isSome_find?_named OutputFormat.name OutputFormat.all word
  rw [← Option.not_isSome_iff_eq_none, hfound, List.contains_iff_mem]

/-- What a field may hold by its entry and by its rule. -/
structure Meets (e : Entry) (r : Rule) : Prop where
  field : e.field = r.field
  admits : ∀ value, e.leaf.admits value = r.admits value

theorem Meets.broken {e : Entry} {r : Rule} (h : Meets e r) (root : Json) :
    (!e.admits root) = r.broken root := by
  rw [Entry.admits, Rule.broken, h.field]
  cases root.field? r.field with
  | none => rfl
  | some value =>
    dsimp only
    rw [h.admits]

theorem oneOf_admits (names : List String) (value : Json) :
    (Leaf.oneOf names).admits value = oneOf names value := by
  cases value <;> rfl

theorem boolean_admits (value : Json) : Leaf.boolean.admits value = isBoolean value := by
  cases value <;> rfl

/-- The entries of the program and the rules say the same. -/
theorem entries_meet_rules : List.Forall₂ Meets entries rules :=
  .cons ⟨rfl, oneOf_admits levelNames⟩
    (.cons ⟨rfl, oneOf_admits formatNames⟩ (.cons ⟨rfl, boolean_admits⟩ .nil))

theorem exists_refused_iff {es : List Entry} {rs : List Rule} (h : List.Forall₂ Meets es rs)
    (root : Json) : (¬ ∀ e ∈ es, e.admits root = true) ↔ ∃ r ∈ rs, r.broken root = true := by
  induction h with
  | nil => simp
  | @cons e r es rs hmeets _ ih =>
    rw [List.forall_mem_cons, List.exists_mem_cons_iff, ← ih, ← hmeets.broken]
    cases e.admits root <;> simp

theorem map_field_filter {es : List Entry} {rs : List Rule} (h : List.Forall₂ Meets es rs)
    (root : Json) : (es.filter fun e => !e.admits root).map Entry.field =
      (rs.filter fun r => r.broken root).map Rule.field := by
  induction h with
  | nil => rfl
  | @cons e r es rs hmeets _ ih =>
    rw [List.filter_cons, List.filter_cons, hmeets.broken root]
    split
    · rw [List.map_cons, List.map_cons, hmeets.field, ih]
    · exact ih

theorem misshapen_iff (root : Json) :
    Misshapen root ↔ ¬ (isRecord root = true ∧ ∀ e ∈ entries, e.admits root = true) := by
  have hfields := exists_refused_iff entries_meet_rules root
  cases root with
  | obj fields =>
    rw [Misshapen, ← hfields]
    simp [isRecord]
  | arr items =>
    rw [Misshapen, ← hfields]
    simp [isRecord]
  | _ => simp [Misshapen, isRecord]

/-- Every rule names a field. -/
theorem named_rules : ∀ r ∈ rules, r.field ≠ "" := by
  intro r hr
  simp only [rules, List.mem_cons, List.not_mem_nil, or_false] at hr
  rcases hr with rfl | rfl | rfl <;> decide

theorem forall₂_detail {rs : List Rule} {issues : List Issue} (hnamed : ∀ r ∈ rs, r.field ≠ "")
    (h : issues.map Issue.path? = rs.map fun r => some r.field) :
    List.Forall₂ (fun r detail => ∃ words, detail = r.field ++ ": " ++ words) rs
      (issues.map Issue.detail) := by
  induction rs generalizing issues with
  | nil =>
    obtain rfl := List.map_eq_nil_iff.mp h
    exact .nil
  | cons r rs ih =>
    obtain ⟨hr, hrs⟩ := List.forall_mem_cons.mp hnamed
    cases issues with
    | nil => cases h
    | cons i issues =>
      obtain ⟨hpath, hrest⟩ := List.cons.inj h
      refine .cons ⟨i.message, ?_⟩ (ih hrs hrest)
      rw [Issue.detail, hpath]
      exact if_neg hr

section Details

variable {v : Validator} (hv : v.Lawful)

include hv

/-- A document passes unless it is misshapen. -/
theorem not_misshapen_of_passed {root out : Json} (h : v.check entries root = .ok out) :
    ¬ Misshapen root := by
  intro hm
  exact (misshapen_iff root).mp hm ((hv.passes entries root).mp ⟨out, h⟩)

theorem misshapen_of_refused {root : Json} {issues : List Issue}
    (h : v.check entries root = .error issues) : Misshapen root := by
  rw [misshapen_iff, ← hv.passes entries root]
  rintro ⟨out, hout⟩
  rw [hout] at h
  cases h

/-- The details that are told of a misshapen document fit it. -/
theorem fit_details {root : Json} (hm : Misshapen root) : Fit root (details v root) := by
  unfold details
  cases hc : v.check entries root with
  | ok out => exact absurd hm (not_misshapen_of_passed hv hc)
  | error issues =>
    cases hr : isRecord root with
    | false =>
      obtain ⟨message, rfl⟩ := hv.whole hr hc
      exact .whole hr
    | true =>
      have hplaces := hv.places hr hc
      have hfields := congrArg (List.map some) (map_field_filter entries_meet_rules root)
      rw [List.map_map, List.map_map] at hfields
      refine .fields hr (forall₂_detail (fun r hm => ?_) (hplaces.trans hfields))
      exact named_rules r (List.mem_filter.mp hm).1

end Details

section Stages

variable {v : Validator} {syntaxMessage : String → String} {disk : Disk} {env : Env}
  {root? asked? : Option String}

theorem directory_iff (cwd : Except String String) (reason : String) :
    Config.pathOf cwd root? asked? = .error reason ↔
      NeedsDirectory root? asked? ∧ cwd = .error reason := by
  have hmap : ∀ f : String → String, cwd.map f = .error reason ↔ cwd = .error reason := by
    intro f
    cases cwd with
    | ok directory => exact iff_of_false (fun h => by cases h) (fun h => by cases h)
    | error other => exact Iff.rfl
  unfold Config.pathOf NeedsDirectory
  cases root? with
  | none => simp [hmap]
  | some root =>
    dsimp only
    by_cases habsolute : (Path.isAbsolute root || Path.isAbsolute (asked?.getD Config.defaultFile)) = true
    · rw [if_pos habsolute]
      refine iff_of_false (fun h => by cases h) ?_
      rintro ⟨hneeds, -⟩
      obtain ⟨hroot, hfile⟩ := hneeds root rfl
      rw [hroot, hfile] at habsolute
      cases habsolute
    · rw [if_neg habsolute, hmap]
      rw [Bool.not_eq_true, Bool.or_eq_false_iff] at habsolute
      constructor
      · intro h
        refine ⟨fun other hother => ?_, h⟩
        obtain rfl := Option.some.inj hother
        exact habsolute
      · exact And.right

/-- One source is at fault in one way. -/
theorem fault_unique {stage other : Stage} {told otherTold : Told}
    (h : FaultAt v syntaxMessage disk env root? asked? stage told)
    (ho : FaultAt v syntaxMessage disk env root? asked? other otherTold)
    (hs : stage.source = other.source) : stage = other ∧ told = otherTold := by
  -- The file is sought and read once, so what that gives excludes every other fault of the file.
  have hdirectory : ∀ {reason path}, NeedsDirectory root? asked? → disk.cwd = .error reason →
      Config.pathOf disk.cwd root? asked? = .ok path → False := by
    intro reason path hneeds hcwd hp
    rw [(directory_iff disk.cwd reason).mpr ⟨hneeds, hcwd⟩] at hp
    cases hp
  cases h <;> cases ho <;> simp_all [Stage.source]

section File

variable {path : String} (hp : Config.pathOf disk.cwd root? asked? = .ok path)

include hp

/-- A file that cannot be used is at fault. -/
theorem exists_fault_of_ofFile (hv : v.Lawful) {e : Error}
    (h : Config.ofFile v syntaxMessage disk path asked?.isSome = .error e) :
    ∃ stage, FaultAt v syntaxMessage disk env root? asked? stage (toldOf (.settings e)) ∧
      stage.source = .file := by
  unfold Config.ofFile at h
  cases hr : disk.read path with
  | failed code? reason =>
    rw [hr] at h
    dsimp only at h
    split at h
    · next hcode =>
      subst hcode
      split at h
      · next hasked =>
        obtain rfl := Except.error.inj h
        exact ⟨.absence, .absent hp hr (Option.isSome_iff_ne_none.mp hasked), rfl⟩
      · cases h
    · next hcode =>
      obtain rfl := Except.error.inj h
      exact ⟨.reading, .unreadable hp hr hcode, rfl⟩
  | content text =>
    rw [hr] at h
    dsimp only at h
    cases hj : Json.read? text with
    | none =>
      rw [hj] at h
      obtain rfl := Except.error.inj h
      exact ⟨.reading, .noJson hp hr hj, rfl⟩
    | some root =>
      rw [hj] at h
      dsimp only at h
      cases hc : v.check entries root with
      | ok out => rw [hc] at h; cases h
      | error issues =>
        rw [hc] at h
        obtain rfl := Except.error.inj h
        have hfault : FaultAt v syntaxMessage disk env root? asked? .shape _ :=
          .misshapen hp hr hj (misshapen_of_refused hv hc)
        rw [details, hc] at hfault
        exact ⟨.shape, hfault, rfl⟩

/-- A file that can be used, or may be missing and is, is at fault nowhere. -/
theorem source_ne_file_of_ofFile (hv : v.Lawful) {found? : Option Config.Shape.Settings}
    (h : Config.ofFile v syntaxMessage disk path asked?.isSome = .ok found?) {stage : Stage}
    {told : Told} (hf : FaultAt v syntaxMessage disk env root? asked? stage told) :
    stage.source ≠ .file := by
  unfold Config.ofFile at h
  cases hf with
  | @directory reason hneeds hcwd =>
    rw [(directory_iff disk.cwd reason).mpr ⟨hneeds, hcwd⟩] at hp
    cases hp
  | unreadable hp' hr hcode =>
    obtain rfl := Except.ok.inj (hp.symm.trans hp')
    rw [hr] at h
    dsimp only at h
    rw [if_neg hcode] at h
    cases h
  | noJson hp' hr hj =>
    obtain rfl := Except.ok.inj (hp.symm.trans hp')
    simp only [hr, hj] at h
    cases h
  | absent hp' hr ha =>
    obtain rfl := Except.ok.inj (hp.symm.trans hp')
    simp only [hr, Option.isSome_iff_ne_none.mpr ha, ↓reduceIte] at h
    cases h
  | @misshapen path' text root hp' hr hj hm =>
    obtain rfl := Except.ok.inj (hp.symm.trans hp')
    simp only [hr, hj] at h
    cases hc : v.check entries root with
    | ok out => exact absurd hm (not_misshapen_of_passed hv hc)
    | error issues => rw [hc] at h; cases h
  | level => exact Source.noConfusion
  | format => exact Source.noConfusion

end File

theorem message_unknownLevel (given : String) :
    (Error.unknownLevel ⟨given⟩).message =
      "SCANSHELL_LOG_LEVEL: Invalid log level '" ++ given ++
        "'. Expected one of: debug, info, warn, error." := by
  let names := ", ".intercalate (LogLevel.all.map LogLevel.name)
  have hopening : "SCANSHELL_LOG_LEVEL: " ++ "Invalid log level '" =
      "SCANSHELL_LOG_LEVEL: Invalid log level '" := by decide +kernel
  have hending : "'. Expected one of: " ++ names ++ "." =
      "'. Expected one of: debug, info, warn, error." := by decide +kernel
  calc (Error.unknownLevel ⟨given⟩).message
      = "SCANSHELL_LOG_LEVEL: " ++
          ("Invalid log level '" ++ given ++ "'. Expected one of: " ++ names ++ ".") := rfl
    _ = "SCANSHELL_LOG_LEVEL: " ++ "Invalid log level '" ++ given ++
          ("'. Expected one of: " ++ names ++ ".") := by simp only [String.append_assoc]
    _ = "SCANSHELL_LOG_LEVEL: Invalid log level '" ++ given ++
          "'. Expected one of: debug, info, warn, error." := by rw [hopening, hending]

theorem fault_of_choose {fallback : LogLevel} {unknown : LogLevel.Unknown}
    (h : LogLevel.choose env.logLevel? fallback = .error unknown) :
    FaultAt v syntaxMessage disk env root? asked? .level
      (toldOf (.settings (.unknownLevel unknown))) := by
  cases hg : env.logLevel? with
  | none => rw [hg] at h; cases h
  | some given =>
    rw [hg, LogLevel.choose] at h
    split at h
    · cases h
    next hb =>
    split at h
    · cases h
    next hn =>
    obtain rfl := Except.error.inj h
    have hfilled : Text.trim given ≠ "" := fun he => hb ((Text.trim_eq_empty_iff given).mp he)
    have hfault : FaultAt v syntaxMessage disk env root? asked? .level _ :=
      .level hg hfilled (levelOfName?_eq_none_iff.mp hn)
    rw [← message_unknownLevel] at hfault
    exact hfault

theorem no_level_fault {fallback level : LogLevel}
    (h : LogLevel.choose env.logLevel? fallback = .ok level) (told : Told) :
    ¬ FaultAt v syntaxMessage disk env root? asked? .level told := by
  intro hf
  cases hf with
  | level hg hb hn =>
    have hblank : ¬ Text.isBlankText _ = true := fun hb' => hb ((Text.trim_eq_empty_iff _).mpr hb')
    rw [hg, LogLevel.choose, if_neg hblank, levelOfName?_eq_none_iff.mpr hn] at h
    cases h

theorem fault_of_formatOf {fallback : OutputFormat} {e : Error}
    (h : Config.formatOf env.output? fallback = .error e) :
    FaultAt v syntaxMessage disk env root? asked? .format (toldOf (.settings e)) := by
  simp only [Config.formatOf] at h
  split at h
  · cases h
  next hb =>
  split at h
  · cases h
  next hn =>
  obtain rfl := Except.error.inj h
  cases hg : env.output? with
  | none => exact absurd (hg ▸ rfl) hb
  | some given =>
    rw [hg, Option.getD_some] at hb hn
    exact .format hg hb (formatOfName?_eq_none_iff.mp hn)

theorem no_format_fault {fallback format : OutputFormat}
    (h : Config.formatOf env.output? fallback = .ok format) (told : Told) :
    ¬ FaultAt v syntaxMessage disk env root? asked? .format told := by
  intro hf
  cases hf with
  | format hg hb hn =>
    simp only [Config.formatOf, hg, Option.getD_some, hb, ↓reduceIte,
      formatOfName?_eq_none_iff.mpr hn] at h
    cases h

variable (v syntaxMessage disk env root? asked?) in
/-- How loading ends: at the step that fails, behind steps that do not, or with settings. -/
inductive Ended : Except Config.Failure Config → Prop
  | directory {reason : String} (h : Config.pathOf disk.cwd root? asked? = .error reason) :
      Ended (.error (.directory reason))
  | file {path : String} {e : Error} (hp : Config.pathOf disk.cwd root? asked? = .ok path)
      (h : Config.ofFile v syntaxMessage disk path asked?.isSome = .error e) :
      Ended (.error (.settings e))
  | level {path : String} {found? : Option Config.Shape.Settings} {fallback : LogLevel}
      {unknown : LogLevel.Unknown} (hp : Config.pathOf disk.cwd root? asked? = .ok path)
      (hfile : Config.ofFile v syntaxMessage disk path asked?.isSome = .ok found?)
      (h : LogLevel.choose env.logLevel? fallback = .error unknown) :
      Ended (.error (.settings (.unknownLevel unknown)))
  | format {path : String} {found? : Option Config.Shape.Settings} {fallback level : LogLevel}
      {format : OutputFormat} {e : Error} (hp : Config.pathOf disk.cwd root? asked? = .ok path)
      (hfile : Config.ofFile v syntaxMessage disk path asked?.isSome = .ok found?)
      (hlevel : LogLevel.choose env.logLevel? fallback = .ok level)
      (h : Config.formatOf env.output? format = .error e) : Ended (.error (.settings e))
  | loaded {path : String} {found? : Option Config.Shape.Settings} {fallback level : LogLevel}
      {format chosen : OutputFormat} {c : Config}
      (hp : Config.pathOf disk.cwd root? asked? = .ok path)
      (hfile : Config.ofFile v syntaxMessage disk path asked?.isSome = .ok found?)
      (hlevel : LogLevel.choose env.logLevel? fallback = .ok level)
      (hformat : Config.formatOf env.output? format = .ok chosen) : Ended (.ok c)

theorem ended_underEnv {path : String} {found? : Option Config.Shape.Settings}
    (hp : Config.pathOf disk.cwd root? asked? = .ok path)
    (hfile : Config.ofFile v syntaxMessage disk path asked?.isSome = .ok found?) (base : Config) :
    Ended v syntaxMessage disk env root? asked?
      ((Config.underEnv env base).mapError .settings) := by
  rw [Config.underEnv]
  cases hlevel : LogLevel.choose env.logLevel? base.level with
  | error unknown => exact .level hp hfile hlevel
  | ok level =>
    cases hformat : Config.formatOf env.output? base.format with
    | error e => exact .format hp hfile hlevel hformat
    | ok format => exact .loaded hp hfile hlevel hformat

variable (v syntaxMessage disk env root? asked?) in
theorem ended_load : Ended v syntaxMessage disk env root? asked?
    (Config.load v syntaxMessage disk env root? asked?) := by
  unfold Config.load
  cases hp : Config.pathOf disk.cwd root? asked? with
  | error reason => exact .directory hp
  | ok path =>
    dsimp only
    rw [Config.loadAt]
    cases hfile : Config.ofFile v syntaxMessage disk path asked?.isSome with
    | error e => exact .file hp hfile
    | ok found? => exact ended_underEnv hp hfile (Config.underFile path found?)

theorem rank_lt_level {stage : Stage} (h : stage.source = .file) :
    stage.rank < Stage.level.rank := by
  cases stage with
  | directory | reading | absence | shape => decide
  | level | format => cases h

theorem level_rank_le {stage : Stage} (h : stage.source ≠ .file) :
    Stage.level.rank ≤ stage.rank := by
  cases stage with
  | directory | reading | absence | shape => exact absurd rfl h
  | level | format => decide

theorem firstFault_of_file {stage : Stage} {told : Told}
    (h : FaultAt v syntaxMessage disk env root? asked? stage told) (hs : stage.source = .file) :
    FirstFault v syntaxMessage disk env root? asked? stage told := by
  refine ⟨h, fun other otherTold ho => ?_⟩
  by_cases hother : other.source = .file
  · obtain ⟨rfl, -⟩ := fault_unique h ho (hs.trans hother.symm)
    exact Nat.le_refl _
  · exact Nat.le_trans (Nat.le_of_lt (rank_lt_level hs)) (level_rank_le hother)

/-- Loading that fails tells of the first fault there is. -/
theorem exists_first_of_error (hv : v.Lawful) {f : Config.Failure}
    (h : Config.load v syntaxMessage disk env root? asked? = .error f) :
    ∃ stage, FirstFault v syntaxMessage disk env root? asked? stage (toldOf f) := by
  have hended := ended_load v syntaxMessage disk env root? asked?
  rw [h] at hended
  cases hended with
  | @directory reason hp =>
    obtain ⟨hneeds, hcwd⟩ := (directory_iff disk.cwd reason).mp hp
    exact ⟨.directory, firstFault_of_file (.directory hneeds hcwd) rfl⟩
  | file hp hfile =>
    obtain ⟨stage, hf, hs⟩ := exists_fault_of_ofFile hp hv hfile
    exact ⟨stage, firstFault_of_file hf hs⟩
  | level hp hfile hlevel =>
    refine ⟨.level, fault_of_choose hlevel, fun other _ ho => ?_⟩
    exact level_rank_le (source_ne_file_of_ofFile hp hv hfile ho)
  | format hp hfile hlevel hformat =>
    refine ⟨.format, fault_of_formatOf hformat, fun other otherTold ho => ?_⟩
    cases other with
    | directory | reading | absence | shape =>
      exact absurd rfl (source_ne_file_of_ofFile hp hv hfile ho)
    | level => exact absurd ho (no_level_fault hlevel otherTold)
    | format => exact Nat.le_refl _

/-- Loading that succeeds has met no fault. -/
theorem no_fault_of_ok (hv : v.Lawful) {c : Config}
    (h : Config.load v syntaxMessage disk env root? asked? = .ok c) (stage : Stage) (told : Told) :
    ¬ FaultAt v syntaxMessage disk env root? asked? stage told := by
  intro hf
  have hended := ended_load v syntaxMessage disk env root? asked?
  rw [h] at hended
  cases hended with
  | loaded hp hfile hlevel hformat =>
    cases stage with
    | directory | reading | absence | shape =>
      exact absurd rfl (source_ne_file_of_ofFile hp hv hfile hf)
    | level => exact no_level_fault hlevel told hf
    | format => exact no_format_fault hformat told hf

theorem firstFault_unique {stage other : Stage} {told otherTold : Told}
    (h : FirstFault v syntaxMessage disk env root? asked? stage told)
    (ho : FirstFault v syntaxMessage disk env root? asked? other otherTold) :
    stage = other ∧ told = otherTold := by
  have hrank : stage.rank = other.rank :=
    Nat.le_antisymm (h.first other otherTold ho.here) (ho.first stage told h.here)
  have hstage : stage = other := by
    cases stage <;> cases other <;> first | rfl | cases hrank
  exact fault_unique h.here ho.here (congrArg Stage.source hstage)

end Stages

/-- Loading fails exactly when something is wrong, and tells of what is wrong first; of a misshapen
document it tells in details that fit it. -/
theorem load_error_iff {v : Validator} (hv : v.Lawful) (syntaxMessage : String → String)
    (disk : Disk) (env : Env) (root? asked? : Option String) (t : Told) :
    ((∃ f, Config.load v syntaxMessage disk env root? asked? = .error f) ↔
      ∃ stage told, FaultAt v syntaxMessage disk env root? asked? stage told) ∧
    ((∃ f, Config.load v syntaxMessage disk env root? asked? = .error f ∧ toldOf f = t) ↔
      ∃ stage, FirstFault v syntaxMessage disk env root? asked? stage t) ∧
    ∀ root, Misshapen root → Fit root (details v root) := by
  have hfault : ∀ {stage told}, FaultAt v syntaxMessage disk env root? asked? stage told →
      ∃ f, Config.load v syntaxMessage disk env root? asked? = .error f := by
    intro stage told hf
    cases hload : Config.load v syntaxMessage disk env root? asked? with
    | ok c => exact absurd hf (no_fault_of_ok hv hload stage told)
    | error f => exact ⟨f, rfl⟩
  refine ⟨⟨?_, ?_⟩, ⟨?_, ?_⟩, fun root hm => fit_details hv hm⟩
  · intro h
    obtain ⟨f, hf⟩ := h
    obtain ⟨stage, hfirst⟩ := exists_first_of_error hv hf
    exact ⟨stage, toldOf f, hfirst.here⟩
  · intro h
    obtain ⟨stage, told, hf⟩ := h
    exact hfault hf
  · intro h
    obtain ⟨f, hf, rfl⟩ := h
    exact exists_first_of_error hv hf
  · -- The error tells of a first fault, and there is only one.
    intro h
    obtain ⟨stage, hfirst⟩ := h
    obtain ⟨f, hf⟩ := hfault hfirst.here
    obtain ⟨other, hother⟩ := exists_first_of_error hv hf
    exact ⟨f, hf, (firstFault_unique hother hfirst).2⟩

/-- One file that breaks two rules, and nothing else. -/
def faulty : Disk where
  cwd := .ok "/w"
  read path :=
    if path = "/w/b.json" then .content "\x7b\"color\": null, \"logLevel\": \"loud\"\x7d"
    else .missing

/-- Both variables are at fault as well. -/
def faultyEnv : Env := ⟨some "loud", some "xml", none, none⟩

/-- What a plain validator finds wrong with the file. -/
def faultyIssues : List Issue :=
  [⟨some "logLevel", "Invalid type: Expected (\"debug\" | \"info\" | \"warn\" | \"error\") but " ++
      "received \"loud\""⟩,
    ⟨some "color", "Invalid type: Expected boolean but received null"⟩]

/-- What is told of it. -/
def faultyTold : Told :=
  .ofSettings (some "/w/b.json") false
    ("Invalid config /w/b.json: logLevel: Invalid type: Expected " ++
      "(\"debug\" | \"info\" | \"warn\" | \"error\") but received \"loud\"; " ++
      "color: Invalid type: Expected boolean but received null")

/-- Of three faults the file's is told, with a detail for each rule it breaks and in their order. -/
theorem load_error_iff_faulty :
    Validator.plain.Lawful ∧
    (∃ f, Config.load .plain (fun _ => "no JSON text") faulty faultyEnv none (some "b.json") =
      .error f ∧ toldOf f = faultyTold) ∧
    ∃ stage, FirstFault .plain (fun _ => "no JSON text") faulty faultyEnv none (some "b.json")
      stage faultyTold := by
  have hlaws := Validator.lawful_plain
  have hpath : Config.pathOf faulty.cwd none (some "b.json") = .ok "/w/b.json" := by
    decide +kernel
  have hfile : Config.ofFile .plain (fun _ => "no JSON text") faulty "/w/b.json" true =
      .error (.misshapen "/w/b.json" faultyIssues) := by decide +kernel
  have htold : toldOf (.settings (.misshapen "/w/b.json" faultyIssues)) = faultyTold := by
    decide +kernel
  have hload : ∃ f, Config.load .plain (fun _ => "no JSON text") faulty faultyEnv none
      (some "b.json") = .error f ∧ toldOf f = faultyTold := by
    refine ⟨.settings (.misshapen "/w/b.json" faultyIssues), ?_, htold⟩
    simp only [Config.load, hpath, Config.loadAt, Option.isSome_some, hfile]
    rfl
  exact ⟨hlaws, hload,
    (load_error_iff hlaws _ faulty faultyEnv none (some "b.json") faultyTold).2.1.mp hload⟩

/-- The working directory is gone. -/
def adrift : Disk := ⟨.error "ENOENT: no such file or directory, uv_cwd", fun _ => .missing⟩

/-- The default file cannot be read, and the failure comes without a code. -/
def uncoded : Disk where
  cwd := .ok "/w"
  read path := if path = "/w/scanshell.json" then .failed none "boom" else .missing

/-- Loading may fail with an error that is none of the settings, and for a failure without a code. -/
theorem load_error_elsewhere :
    (Config.load .plain (fun _ => "no JSON text") adrift .empty none none =
        .error (.directory "ENOENT: no such file or directory, uv_cwd") ∧
      (toldOf (.directory "ENOENT: no such file or directory, uv_cwd")).name? = some "Error") ∧
    Config.load .plain (fun _ => "no JSON text") uncoded .empty none none =
        .error (.settings (.unreadable "/w/scanshell.json" "boom")) ∧
      uncoded.read "/w/scanshell.json" = .failed none "boom" := by
  have hpath : Config.pathOf uncoded.cwd none none = .ok "/w/scanshell.json" := by decide +kernel
  refine ⟨⟨rfl, rfl⟩, ?_, rfl⟩
  simp only [Config.load, hpath]
  rfl

end DeviceShell.Proofs.LoadFaults
