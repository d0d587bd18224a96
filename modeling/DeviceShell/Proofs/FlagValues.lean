import DeviceShell.Proofs.FlagOrder
import DeviceShell.Proofs.LastFlag

/-!
# Which argument a flag takes for its value

Three passes take the flags out of the arguments in front of `--`, one after another, and each sees
only what the earlier ones have left. `EachBehind` speaks of the arguments as they were given: what
stands behind every occurrence of a flag. Read so, the flags with a free value take the argument right
behind them, or the run is misuse. The format flag comes later, when these flags and their values are
gone, so its format may stand behind any number of such pairs (`ofArgs_ok_iff`).

`once` reads the same arguments in a single pass from the left. What it reads the three passes read
alike, but they also accept a format flag that a value flag follows, which the single pass refuses
(`once_isSome_iff`).
-/
namespace DeviceShell.Proofs.FlagValues

open Cli Cli.Args
open FlagOrder (Piece choices reserved)
open LastFlag (FlagNames lastFormat? lastValue? ofName?_eq_some_iff withoutPairs)

/-- The arguments behind each occurrence of a flag are such. -/
def EachBehind (flag : String) (ok : List String → Prop) (args : List String) : Prop :=
  ∀ before behind, args = before ++ flag :: behind → ok behind

theorem eachBehind_nil (flag : String) (ok : List String → Prop) : EachBehind flag ok [] := by
  intro before behind h
  cases before <;> cases h

theorem eachBehind_cons {flag arg : String} {ok : List String → Prop} {args : List String} :
    EachBehind flag ok (arg :: args) ↔ (arg = flag → ok args) ∧ EachBehind flag ok args := by
  constructor
  · intro h
    constructor
    · rintro rfl
      exact h [] args rfl
    · rintro before behind rfl
      exact h (arg :: before) behind rfl
  · rintro ⟨hfirst, hlater⟩ before behind h
    cases before with
    | nil =>
      obtain ⟨harg, rfl⟩ := List.cons.inj h
      exact hfirst harg
    | cons _ before =>
      obtain ⟨-, hargs⟩ := List.cons.inj h
      exact hlater before behind hargs

theorem eachBehind_keep {flag arg : String} {ok : List String → Prop} {args : List String}
    (h : arg ≠ flag) : EachBehind flag ok (arg :: args) ↔ EachBehind flag ok args := by
  rw [eachBehind_cons]
  exact ⟨And.right, fun hargs => ⟨fun he => absurd he h, hargs⟩⟩

/-- The next argument is there and does not look like a flag. -/
def Valued (behind : List String) : Prop := ∃ value rest, behind = value :: rest ∧ isFlag value = false

/-- The next argument names a format. -/
def Formatted (behind : List String) : Prop :=
  ∃ (format : OutputFormat) (rest : List String), behind = format.name :: rest

/-- The next argument names a format once value flags are left out with what they take. -/
def FormattedPast (behind : List String) : Prop :=
  Formatted (withoutPairs Invocation.valueFlags behind)

theorem valued_cons {value : String} {rest : List String} :
    Valued (value :: rest) ↔ isFlag value = false := by
  constructor
  · rintro ⟨_, _, h, hvalue⟩
    obtain ⟨rfl, rfl⟩ := List.cons.inj h
    exact hvalue
  · intro h
    exact ⟨value, rest, rfl, h⟩

theorem not_valued_nil : ¬ Valued [] := by
  rintro ⟨_, _, h, -⟩
  cases h

theorem formatted_cons {value : String} {rest : List String} :
    Formatted (value :: rest) ↔ ∃ format, OutputFormat.ofName? value = some format := by
  constructor
  · rintro ⟨format, _, h⟩
    obtain ⟨rfl, rfl⟩ := List.cons.inj h
    exact ⟨format, ofName?_eq_some_iff.mpr rfl⟩
  · rintro ⟨format, h⟩
    exact ⟨format, rest, by rw [ofName?_eq_some_iff.mp h]⟩

theorem not_formatted_nil : ¬ Formatted [] := by
  rintro ⟨_, _, h⟩
  cases h

def Succeeds {α : Type} (p : Pass α) : Prop := ∃ a, p.result = .ok a

theorem succeeds_map {α β : Type} {f : α → β} {p : Pass α} :
    Succeeds (p.map f) ↔ Succeeds p := by
  constructor
  · rintro ⟨_, h⟩
    obtain ⟨a, ha, -⟩ := Passes.exists_of_result_map h
    exact ⟨a, ha⟩
  · rintro ⟨a, h⟩
    exact ⟨f a, by rw [Pass.result_map, h]; rfl⟩

theorem not_succeeds_stop {α : Type} (e : UsageError) (rest : List String) :
    ¬ Succeeds (stop e rest : Pass α) := by
  rintro ⟨_, h⟩
  cases h

/-- Every one of these flags stands in front of a value. -/
def AllValued (names args : List String) : Prop := ∀ name ∈ names, EachBehind name Valued args

theorem allValued_pair {names args : List String} {name value : String} (hnames : FlagNames names)
    (hvalue : isFlag value = false) :
    AllValued names (name :: value :: args) ↔ AllValued names args := by
  refine forall₂_congr fun other hother => ?_
  have hne : value ≠ other := LastFlag.ne_of_isFlag hvalue (hnames other hother)
  rw [eachBehind_cons, eachBehind_keep hne]
  exact ⟨And.right, fun hargs => ⟨fun _ => valued_cons.mpr hvalue, hargs⟩⟩

theorem allValued_keep {names args : List String} {arg : String} (h : arg ∉ names) :
    AllValued names (arg :: args) ↔ AllValued names args :=
  forall₂_congr fun _ hname => eachBehind_keep fun he => h (he ▸ hname)

/-- The pass for the value flags succeeds exactly when each has its value right behind it. -/
theorem extract_succeeds_iff {names args : List String} (hnames : FlagNames names) :
    Succeeds (extract names args) ↔ AllValued names args := by
  fun_induction extract names args with
  | case1 => exact ⟨fun _ _ _ => eachBehind_nil _ _, fun _ => ⟨[], rfl⟩⟩
  | case2 arg harg =>
    refine iff_of_false (not_succeeds_stop _ _) fun h => ?_
    exact not_valued_nil ((eachBehind_cons.mp (h arg harg)).1 rfl)
  | case3 arg harg value rest hv =>
    refine iff_of_false (not_succeeds_stop _ _) fun h => ?_
    have hvalue := valued_cons.mp ((eachBehind_cons.mp (h arg harg)).1 rfl)
    rw [hv] at hvalue
    cases hvalue
  | case4 arg harg value rest hv ih =>
    rw [succeeds_map, allValued_pair hnames (Bool.eq_false_iff.mpr hv), ih]
  | case5 arg args harg ih =>
    rw [allValued_keep harg, ← ih]
    rfl

/-- The pass for the format flags succeeds exactly when a format is named right behind each
`--output` that it sees. -/
theorem takeOutput_succeeds_iff {args : List String} :
    Succeeds (takeOutput args) ↔ EachBehind "--output" Formatted args := by
  fun_induction takeOutput args with
  | case1 => exact ⟨fun _ => eachBehind_nil _ _, fun _ => ⟨none, rfl⟩⟩
  | case2 =>
    refine iff_of_false (not_succeeds_stop _ _) fun h => ?_
    exact not_formatted_nil ((eachBehind_cons.mp h).1 rfl)
  | case3 rest =>
    refine iff_of_false (not_succeeds_stop _ _) fun h => ?_
    obtain ⟨format, hf⟩ := formatted_cons.mp ((eachBehind_cons.mp h).1 rfl)
    have hempty : "" ≠ format.name := by cases format <;> decide
    exact hempty (ofName?_eq_some_iff.mp hf)
  | case4 value rest hv hf =>
    refine iff_of_false (not_succeeds_stop _ _) fun h => ?_
    obtain ⟨format, hsome⟩ := formatted_cons.mp ((eachBehind_cons.mp h).1 rfl)
    rw [hf] at hsome
    cases hsome
  | case5 value rest hv format hf ih =>
    have hvalue : value ≠ "--output" := LastFlag.ne_of_isFlag (LastFlag.isFlag_of_ofName? hf) rfl
    rw [succeeds_map, ih, eachBehind_cons, eachBehind_keep hvalue]
    exact ⟨fun hrest => ⟨fun _ => formatted_cons.mpr ⟨format, hf⟩, hrest⟩, And.right⟩
  | case6 args ho ih => rw [succeeds_map, ih, eachBehind_keep (by decide)]
  | case7 arg args ho hj ih =>
    rw [eachBehind_keep ho, ← ih]
    rfl

/-- The arguments in front of the separator. -/
def front (argv : List String) : List String := (separate argv).flagged

theorem ofArgs_succeeds_iff {argv : List String} :
    (∃ inv, Invocation.ofArgs argv = .ok inv) ↔
      Succeeds (extract Invocation.valueFlags (front argv)) ∧
        Succeeds (takeOutput (extract Invocation.valueFlags (front argv)).rest) := by
  constructor
  · rintro ⟨inv, h⟩
    obtain ⟨pairs, hp⟩ := Plans.exists_passed h
    exact ⟨⟨pairs, hp.values⟩, _, hp.format⟩
  · rintro ⟨⟨pairs, hvalues⟩, format?, hformat⟩
    simp only [front] at hvalues hformat
    simp only [Invocation.ofArgs, hvalues, hformat]
    exact ⟨_, rfl⟩

/-- Where the value flags have their values, the format flags of the second pass are those of the
first, each followed by what the first pass leaves behind it. -/
theorem eachBehind_withoutPairs {args : List String}
    (h : Succeeds (extract Invocation.valueFlags args)) :
    EachBehind "--output" Formatted (withoutPairs Invocation.valueFlags args) ↔
      EachBehind "--output" FormattedPast args := by
  have houtput : "--output" ∉ Invocation.valueFlags := by decide
  fun_induction extract Invocation.valueFlags args with
  | case1 => exact ⟨fun _ => eachBehind_nil _ _, fun _ => eachBehind_nil _ _⟩
  | case2 => exact absurd h (not_succeeds_stop _ _)
  | case3 => exact absurd h (not_succeeds_stop _ _)
  | case4 arg harg value rest hv ih =>
    have hname : arg ≠ "--output" := fun he => houtput (he ▸ harg)
    have hvalue : value ≠ "--output" := LastFlag.ne_of_isFlag (Bool.eq_false_iff.mpr hv) rfl
    rw [LastFlag.withoutPairs_pair harg, eachBehind_keep hname, eachBehind_keep hvalue]
    exact ih (succeeds_map.mp h)
  | case5 arg args harg ih =>
    rw [LastFlag.withoutPairs_keep harg, eachBehind_cons, eachBehind_cons]
    exact and_congr Iff.rfl (ih h)

/-- The flags of a run can be read exactly when every flag with a free value has it right behind it
and every `--output` its format behind it, such pairs left out. -/
theorem ofArgs_ok_iff {argv : List String} :
    (∃ inv, Invocation.ofArgs argv = .ok inv) ↔
      AllValued Invocation.valueFlags (front argv) ∧
        EachBehind "--output" FormattedPast (front argv) := by
  rw [ofArgs_succeeds_iff, ← extract_succeeds_iff LastFlag.flagNames_valueFlags]
  refine and_congr_right fun h => ?_
  obtain ⟨pairs, hpairs⟩ := h
  rw [LastFlag.extract_rest hpairs, takeOutput_succeeds_iff, eachBehind_withoutPairs ⟨pairs, hpairs⟩]

/-- Where the values of a run come from: from right behind the last flag, for the format where the
other flags are left out. -/
structure Taken (args : List String) (inv : Invocation) : Prop where
  config : inv.configPath? = lastValue? "--config" args
  level : inv.level? = lastValue? "--log-level" args
  format : inv.format? = lastFormat? (withoutPairs Invocation.valueFlags args)

theorem taken_of_ofArgs {argv : List String} {inv : Invocation}
    (h : Invocation.ofArgs argv = .ok inv) : Taken (front argv) inv := by
  obtain ⟨pairs, hp⟩ := Plans.exists_passed h
  have hnames := LastFlag.flagNames_valueFlags
  constructor
  · rw [hp.config, front, LastFlag.valueOf?_extract hnames (by decide) hp.values]
  · rw [hp.level, front, LastFlag.valueOf?_extract hnames (by decide) hp.values]
  · rw [LastFlag.takeOutput_result hp.format, LastFlag.extract_rest hp.values, front]

/-- A flag that takes a value, with the argument behind it. -/
def group? (flag value : String) : Option Piece :=
  if flag = "--output" then (OutputFormat.ofName? value).map Piece.output
  else if h : isFlag value = false then
    some (if flag = "--config" then .config value h else .level value h)
  else none

/-- A flag or a word that takes nothing. -/
def single? (arg : String) : Option Piece :=
  if arg = "--json" then some .json
  else if arg = "--no-color" then some .noColor
  else if h : arg ∉ reserved then some (.plain arg h)
  else none

/-- One pass over the arguments from the left, in which a flag takes the very next argument. -/
def once : List String → Option (List Piece)
  | [] => some []
  | arg :: args =>
    if arg ∈ Invocation.valueFlags ∨ arg = "--output" then
      match args with
      | [] => none
      | value :: rest => (group? arg value).bind fun p => (once rest).map (p :: ·)
    else (single? arg).bind fun p => (once args).map (p :: ·)

theorem args_of_group? {flag value : String} {p : Piece}
    (hflag : flag ∈ Invocation.valueFlags ∨ flag = "--output") (h : group? flag value = some p) :
    p.args = [flag, value] := by
  unfold group? at h
  split at h
  · next ho =>
    obtain ⟨format, hf, rfl⟩ := Option.map_eq_some_iff.mp h
    rw [ho, ofName?_eq_some_iff.mp hf]
    rfl
  · next ho =>
    split at h
    · next hvalue =>
      obtain rfl := Option.some.inj h
      have hname := hflag.resolve_right ho
      simp only [Invocation.valueFlags, List.mem_cons, List.not_mem_nil, or_false] at hname
      rcases hname with rfl | rfl
      · rfl
      · rfl
    · cases h

theorem args_of_single? {arg : String} {p : Piece} (h : single? arg = some p) :
    p.args = [arg] := by
  unfold single? at h
  split at h
  · next hj =>
    obtain rfl := Option.some.inj h
    rw [hj]
    rfl
  split at h
  · next hc =>
    obtain rfl := Option.some.inj h
    rw [hc]
    rfl
  split at h
  · obtain rfl := Option.some.inj h
    rfl
  · cases h

/-- What the single pass reads are the arguments, cut into pieces. -/
theorem args_of_once {args : List String} {ps : List Piece} (h : once args = some ps) :
    ps.flatMap Piece.args = args := by
  fun_induction once args generalizing ps with
  | case1 =>
    obtain rfl := Option.some.inj h
    rfl
  | case2 => cases h
  | case3 arg hflag value rest ih =>
    obtain ⟨p, hp, hmore⟩ := Option.bind_eq_some_iff.mp h
    obtain ⟨more, hm, rfl⟩ := Option.map_eq_some_iff.mp hmore
    rw [List.flatMap_cons, args_of_group? hflag hp, ih hm]
    rfl
  | case4 arg args hflag ih =>
    obtain ⟨p, hp, hmore⟩ := Option.bind_eq_some_iff.mp h
    obtain ⟨more, hm, rfl⟩ := Option.map_eq_some_iff.mp hmore
    rw [List.flatMap_cons, args_of_single? hp, ih hm]
    rfl

/-- The separator with what is behind it is all that is missing in front of it. -/
theorem exists_ending (argv : List String) :
    ∃ ending, argv = front argv ++ FlagOrder.closing ending ∧
      ending.getD [] = (separate argv).positional := by
  induction argv with
  | nil => exact ⟨none, rfl, rfl⟩
  | cons arg argv ih =>
    by_cases harg : arg = "--"
    · subst harg
      exact ⟨some argv, rfl, rfl⟩
    · obtain ⟨ending, hargv, hpositional⟩ := ih
      simp only [front] at hargv
      refine ⟨ending, ?_, ?_⟩
      · rw [front, Passes.separate_cons harg, List.cons_append, ← hargv]
      · rw [Passes.separate_cons harg, hpositional]

/-- What the single pass reads the three passes read alike. -/
theorem ofArgs_of_once {argv : List String} {ps : List Piece} (h : once (front argv) = some ps) :
    Invocation.ofArgs argv = .ok ⟨(choices ps).config?, (choices ps).level?, (choices ps).format?,
      (choices ps).noColor, (choices ps).words, (separate argv).positional⟩ := by
  obtain ⟨ending, hargv, hpositional⟩ := exists_ending argv
  have hpieces : argv = FlagOrder.argvOf ps ending := by
    rw [FlagOrder.argvOf, args_of_once h]
    exact hargv
  rw [← hpositional, ← FlagOrder.ofArgs_argvOf ps ending, ← hpieces]

/-- Every flag that takes a value has a proper one right behind it. -/
def Readable (args : List String) : Prop :=
  AllValued Invocation.valueFlags args ∧ EachBehind "--output" Formatted args

theorem readable_nil : Readable [] := ⟨fun _ _ => eachBehind_nil _ _, eachBehind_nil _ _⟩

theorem not_readable_singleton {flag : String}
    (hflag : flag ∈ Invocation.valueFlags ∨ flag = "--output") : ¬ Readable [flag] := by
  rintro ⟨hvalues, hformats⟩
  rcases hflag with hname | rfl
  · exact not_valued_nil ((eachBehind_cons.mp (hvalues flag hname)).1 rfl)
  · exact not_formatted_nil ((eachBehind_cons.mp hformats).1 rfl)

theorem readable_keep {arg : String} {args : List String} (hname : arg ∉ Invocation.valueFlags)
    (ho : arg ≠ "--output") : Readable (arg :: args) ↔ Readable args := by
  rw [Readable, Readable, allValued_keep hname, eachBehind_keep ho]

theorem not_mem_valueFlags {value : String} (h : isFlag value = false) :
    value ∉ Invocation.valueFlags := by
  intro hname
  rw [LastFlag.flagNames_valueFlags value hname] at h
  cases h

/-- A flag with its next argument is read if this is a proper value, and the rest is read on. -/
theorem readable_group {flag value : String} {rest : List String}
    (hflag : flag ∈ Invocation.valueFlags ∨ flag = "--output") :
    Readable (flag :: value :: rest) ↔ (group? flag value).isSome ∧ Readable rest := by
  have hkeep : isFlag value = false → (Readable (value :: rest) ↔ Readable rest) := fun h =>
    readable_keep (not_mem_valueFlags h) (LastFlag.ne_of_isFlag h rfl)
  by_cases ho : flag = "--output"
  · subst ho
    have hgroup : (group? "--output" value).isSome ↔ Formatted (value :: rest) := by
      rw [group?, if_pos rfl, Option.isSome_map, formatted_cons, Option.isSome_iff_exists]
    have hopen : Readable ("--output" :: value :: rest) ↔
        Formatted (value :: rest) ∧ Readable (value :: rest) := by
      rw [Readable, Readable, allValued_keep (by decide), eachBehind_cons]
      simp only [forall_const]
      exact and_left_comm
    rw [hopen, hgroup]
    refine and_congr_right fun h => hkeep ?_
    obtain ⟨format, hf⟩ := formatted_cons.mp h
    exact LastFlag.isFlag_of_ofName? hf
  · have hname := hflag.resolve_right ho
    have hgroup : (group? flag value).isSome ↔ isFlag value = false := by
      rw [group?, if_neg ho]
      split
      · next hvalue => exact iff_of_true rfl hvalue
      · next hvalue => exact iff_of_false Bool.false_ne_true hvalue
    rw [hgroup]
    constructor
    · intro h
      have hvalue := valued_cons.mp ((eachBehind_cons.mp (h.1 flag hname)).1 rfl)
      refine ⟨hvalue, (allValued_pair LastFlag.flagNames_valueFlags hvalue).mp h.1, ?_⟩
      have hlater := (eachBehind_keep ho).mp h.2
      exact (eachBehind_keep (LastFlag.ne_of_isFlag hvalue rfl)).mp hlater
    · rintro ⟨hvalue, hvalues, hformats⟩
      refine ⟨(allValued_pair LastFlag.flagNames_valueFlags hvalue).mpr hvalues, ?_⟩
      rw [eachBehind_keep ho, eachBehind_keep (LastFlag.ne_of_isFlag hvalue rfl)]
      exact hformats

theorem isSome_single? {arg : String} (hsep : arg ≠ "--")
    (hflag : ¬ (arg ∈ Invocation.valueFlags ∨ arg = "--output")) : (single? arg).isSome := by
  unfold single?
  split
  · rfl
  split
  · rfl
  next hj hc =>
  have hplain : arg ∉ reserved := by
    simp only [Invocation.valueFlags, List.mem_cons, List.not_mem_nil, or_false, not_or] at hflag
    obtain ⟨⟨hconfig, hlevel⟩, ho⟩ := hflag
    simp only [reserved, List.mem_cons, List.not_mem_nil, or_false, not_or]
    exact ⟨hsep, hconfig, hlevel, ho, hj, hc⟩
  rw [dif_pos hplain]
  rfl

/-- The single pass succeeds exactly when every flag that takes a value has one right behind it. -/
theorem once_isSome_iff {args : List String} (hsep : "--" ∉ args) :
    (once args).isSome ↔ Readable args := by
  fun_induction once args with
  | case1 => exact iff_of_true rfl readable_nil
  | case2 arg hflag => exact iff_of_false Bool.false_ne_true (not_readable_singleton hflag)
  | case3 arg hflag value rest ih =>
    obtain ⟨-, hrest⟩ := List.ne_and_not_mem_of_not_mem_cons hsep
    obtain ⟨-, hrest⟩ := List.ne_and_not_mem_of_not_mem_cons hrest
    rw [readable_group hflag, ← ih hrest]
    cases group? arg value <;> simp
  | case4 arg args hflag ih =>
    obtain ⟨hne, hrest⟩ := List.ne_and_not_mem_of_not_mem_cons hsep
    obtain ⟨p, hp⟩ := Option.isSome_iff_exists.mp (isSome_single? hne.symm hflag)
    rw [readable_keep (fun h => hflag (.inl h)) (fun h => hflag (.inr h)), ← ih hrest, hp]
    simp

/-- A run whose flags cannot be read is misuse. -/
theorem failure_of_ofArgs {argv : List String} {e : UsageError}
    (h : Invocation.ofArgs argv = .error e) (w : World) (s : Session) :
    (run w s argv).failure? = some (.usage e) := by
  have hne : argv.isEmpty = false := by
    rw [List.isEmpty_eq_false_iff]
    rintro rfl
    cases h
  rw [run, plan, hne, h]
  rfl

theorem exists_of_run {w : World} {s : Session} {argv : List String}
    (h : ∀ e, (run w s argv).failure? ≠ some (.usage e)) :
    ∃ inv, Invocation.ofArgs argv = .ok inv := by
  cases hi : Invocation.ofArgs argv with
  | error e => exact absurd (failure_of_ofArgs hi w s) (h e)
  | ok inv => exact ⟨inv, rfl⟩

/-- Where the flags of a run take their values. A run that is no misuse has them in front of values,
the format flag with value flags and their values left out, and takes these values. The flags can be
read in no other case. A single pass reads alike what it reads, and refuses of the rest exactly the
arguments with a format flag whose very next argument names no format. -/
theorem flags_take_values (w : World) (s : Session) (argv : List String) :
    ((∀ e, (run w s argv).failure? ≠ some (.usage e)) →
      AllValued Invocation.valueFlags (front argv) ∧
        EachBehind "--output" FormattedPast (front argv) ∧
        ∃ inv, Invocation.ofArgs argv = .ok inv ∧ Taken (front argv) inv) ∧
    ((∃ inv, Invocation.ofArgs argv = .ok inv) ↔
      AllValued Invocation.valueFlags (front argv) ∧
        EachBehind "--output" FormattedPast (front argv)) ∧
    (∀ ps, once (front argv) = some ps →
      Invocation.ofArgs argv = .ok ⟨(choices ps).config?, (choices ps).level?,
        (choices ps).format?, (choices ps).noColor, (choices ps).words,
        (separate argv).positional⟩) ∧
    ((once (front argv)).isSome ↔
      (∃ inv, Invocation.ofArgs argv = .ok inv) ∧
        EachBehind "--output" Formatted (front argv)) := by
  refine ⟨fun h => ?_, ofArgs_ok_iff, fun ps hps => ofArgs_of_once hps, ?_⟩
  · obtain ⟨inv, hinv⟩ := exists_of_run h
    obtain ⟨hvalues, hformats⟩ := ofArgs_ok_iff.mp ⟨inv, hinv⟩
    exact ⟨hvalues, hformats, inv, hinv, taken_of_ofArgs hinv⟩
  · constructor
    · intro h
      obtain ⟨ps, hps⟩ := Option.isSome_iff_exists.mp h
      have hreadable := (once_isSome_iff (Passes.separator_not_mem_flagged argv)).mp h
      exact ⟨⟨_, ofArgs_of_once hps⟩, hreadable.2⟩
    · rintro ⟨hread, hformats⟩
      have hvalues := (ofArgs_ok_iff.mp hread).1
      exact (once_isSome_iff (Passes.separator_not_mem_flagged argv)).mpr ⟨hvalues, hformats⟩

/-- A listing with a level in front and a format behind. -/
theorem flags_take_values_apart :
    (∀ e, (run .empty .fresh ["--log-level", "debug", "keywords", "--output", "json"]).failure? ≠
      some (.usage e)) ∧
    AllValued Invocation.valueFlags ["--log-level", "debug", "keywords", "--output", "json"] ∧
    EachBehind "--output" FormattedPast
      ["--log-level", "debug", "keywords", "--output", "json"] := by
  have h : ∀ e, (run .empty .fresh
      ["--log-level", "debug", "keywords", "--output", "json"]).failure? ≠ some (.usage e) := by
    intro e he
    cases he
  obtain ⟨hvalues, hformats, -⟩ := (flags_take_values .empty .fresh _).1 h
  exact ⟨h, hvalues, hformats⟩

/-- A format flag takes its format from behind a level: the listing comes as a document, although no
format is named right behind the flag and a single pass refuses the arguments. -/
theorem format_from_behind_level :
    (run .empty .fresh ["keywords", "--output", "--log-level", "warn", "json"]).failure? = none ∧
    (run .empty .fresh ["keywords", "--output", "--log-level", "warn", "json"]).stdout =
      Catalogue.listing .json ∧
    ¬ EachBehind "--output" Formatted
      (front ["keywords", "--output", "--log-level", "warn", "json"]) ∧
    once (front ["keywords", "--output", "--log-level", "warn", "json"]) = none := by
  refine ⟨rfl, rfl, fun h => ?_, rfl⟩
  obtain ⟨format, rest, hformat⟩ := h ["keywords"] ["--log-level", "warn", "json"] rfl
  obtain ⟨hname, -⟩ := List.cons.inj hformat
  revert hname
  cases format <;> decide

end DeviceShell.Proofs.FlagValues
