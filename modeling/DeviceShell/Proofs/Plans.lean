import DeviceShell.Cli.Run
import DeviceShell.Proofs.Passes

/-!
# Where a plan comes from

A run that reaches its subcommand has read its flags and loaded its settings. `Source` names, part by
part, what each part of the plan was taken from, so that later arguments need not go through the
branches of a run again; `Ended` does the same for a run that ends without one, and `Parsed` for the
subcommand that may read the input. The words of a plan have been through every pass: neither the
separator nor a format flag is among them.
-/
namespace DeviceShell.Proofs.Plans

open Cli

/-- The flags and the settings that a plan was made of. -/
structure Source (w : World) (argv : List String) (p : Plan) (inv : Invocation) (c : Config) :
    Prop where
  flags : Invocation.ofArgs argv = .ok inv
  settings : w.load inv.configPath? = .ok c
  level : LogLevel.choose inv.level? c.level = .ok p.session.level
  color : p.session.color? = (flagColor inv).or c.color?
  path : p.path? = c.path?
  format : p.format = inv.format?.getD c.format
  words : inv.words = p.word :: p.args
  positional : p.positional = inv.positional

theorem source_of_planUnder {w : World} {argv : List String} {inv : Invocation} {c : Config}
    {word : String} {args : List String} {p : Plan} (hflags : Invocation.ofArgs argv = .ok inv)
    (hwords : inv.words = word :: args)
    (hc : w.load inv.configPath? = .ok c)
    (h : planUnder inv c word args = .ok p) : Source w argv p inv c := by
  rw [planUnder] at h
  cases hl : LogLevel.choose inv.level? c.level with
  | error unknown => rw [hl] at h; cases h
  | ok level =>
    rw [hl] at h
    obtain rfl := Except.ok.inj h
    exact ⟨hflags, hc, hl, rfl, rfl, rfl, hwords, rfl⟩

theorem exists_source {w : World} {s : Session} {argv : List String} {p : Plan}
    (h : plan w s argv = .ok p) : ∃ (inv : Invocation) (c : Config), Source w argv p inv c := by
  rw [plan] at h
  split at h
  · cases h
  · cases hi : Invocation.ofArgs argv with
    | error e => rw [hi] at h; cases h
    | ok inv =>
      simp only [hi, planInvocation] at h
      split at h
      · cases h
      · next word args hwords =>
        split at h
        · cases h
        split at h
        · cases h
        split at h
        · cases h
        cases hc : w.load inv.configPath? with
        | error e => rw [hc] at h; cases h
        | ok c =>
          rw [hc] at h
          exact ⟨inv, c, source_of_planUnder hi hwords hc h⟩

/-- How a run ends without a subcommand, and why. From the flags on the session holds the colour that
they choose. -/
inductive Ended (w : World) (s : Session) (argv : List String) : Outcome → Prop
  | unasked (h : argv = []) : Ended w s argv (help w s none 1)
  | misused {e : UsageError} (h : Invocation.ofArgs argv = .error e) :
      Ended w s argv (.failed s [] (.usage e))
  | wordless {inv : Invocation} (h : Invocation.ofArgs argv = .ok inv)
      (hw : inv.words = [] ∨ ∃ args, inv.words = "" :: args) :
      Ended w s argv (help w { s with color? := flagColor inv } none 1)
  | help {inv : Invocation} {word : String} {args : List String}
      (h : Invocation.ofArgs argv = .ok inv) (hw : inv.words = word :: args)
      (hh : isHelpWord word = true) :
      Ended w s argv (help w { s with color? := flagColor inv } none 0)
  | version {inv : Invocation} {word : String} {args : List String}
      (h : Invocation.ofArgs argv = .ok inv) (hw : inv.words = word :: args)
      (hv : isVersionWord word = true) :
      Ended w s argv
        (.answered { s with color? := flagColor inv } [Version.text w.manifest?] [] none)
  | unloaded {inv : Invocation} {f : Config.Failure} (h : Invocation.ofArgs argv = .ok inv)
      (hc : w.load inv.configPath? = .error f) :
      Ended w s argv (.failed { s with color? := flagColor inv } [] (.ofLoad f))
  | misnamed {inv : Invocation} {c : Config} {unknown : LogLevel.Unknown}
      (h : Invocation.ofArgs argv = .ok inv)
      (hc : w.load inv.configPath? = .ok c)
      (hl : LogLevel.choose inv.level? c.level = .error unknown) :
      Ended w s argv
        (.failed ⟨c.level, (flagColor inv).or c.color?⟩ [] (.usage (.unknownLevel unknown)))

theorem ended_of_planInvocation {w : World} {s : Session} {argv : List String} {inv : Invocation}
    {o : Outcome} (hflags : Invocation.ofArgs argv = .ok inv)
    (h : planInvocation w { s with color? := flagColor inv } inv = .error o) : Ended w s argv o := by
  unfold planInvocation at h
  split at h
  · next hnil =>
    obtain rfl := Except.error.inj h
    exact .wordless hflags (.inl hnil)
  · next word args hwords =>
    split at h
    · next hempty =>
      obtain rfl := Except.error.inj h
      exact .wordless hflags (.inr ⟨args, hempty ▸ hwords⟩)
    split at h
    · next hhelp =>
      obtain rfl := Except.error.inj h
      exact .help hflags hwords hhelp
    split at h
    · next hversion =>
      obtain rfl := Except.error.inj h
      exact .version hflags hwords hversion
    cases hc : w.load inv.configPath? with
    | error e =>
      rw [hc] at h
      obtain rfl := Except.error.inj h
      exact .unloaded hflags hc
    | ok c =>
      simp only [hc, planUnder] at h
      cases hl : LogLevel.choose inv.level? c.level with
      | error unknown =>
        rw [hl] at h
        obtain rfl := Except.error.inj h
        exact .misnamed hflags hc hl
      | ok level => rw [hl] at h; cases h

theorem ended_of_plan {w : World} {s : Session} {argv : List String} {o : Outcome}
    (h : plan w s argv = .error o) : Ended w s argv o := by
  unfold plan at h
  split at h
  · next hempty =>
    obtain rfl := Except.error.inj h
    exact .unasked (List.isEmpty_iff.mp hempty)
  · cases hi : Invocation.ofArgs argv with
    | error e =>
      rw [hi] at h
      obtain rfl := Except.error.inj h
      exact .misused hi
    | ok inv =>
      rw [hi] at h
      exact ended_of_planInvocation hi h

/-- What the three passes hand on, one to the next. -/
structure Passed (argv : List String) (inv : Invocation) (pairs : List (String × String)) :
    Prop where
  values : (Args.extract Invocation.valueFlags (Args.separate argv).flagged).result = .ok pairs
  config : inv.configPath? = Args.valueOf? "--config" pairs
  level : inv.level? = Args.valueOf? "--log-level" pairs
  format : (Args.takeOutput
    (Args.extract Invocation.valueFlags (Args.separate argv).flagged).rest).result =
      .ok inv.format?
  switch : (inv.noColor, inv.words) = Args.takeSwitch "--no-color" (Args.takeOutput
    (Args.extract Invocation.valueFlags (Args.separate argv).flagged).rest).rest
  positional : inv.positional = (Args.separate argv).positional

theorem exists_passed {argv : List String} {inv : Invocation}
    (h : Invocation.ofArgs argv = .ok inv) : ∃ pairs, Passed argv inv pairs := by
  simp only [Invocation.ofArgs] at h
  split at h
  · cases h
  · next pairs hp =>
    split at h
    · cases h
    · next format? hf =>
      obtain rfl := Except.ok.inj h
      exact ⟨pairs, hp, rfl, rfl, hf, rfl, rfl⟩

/-- The flags come from before `--`, and from behind it only what is kept there. -/
theorem ofArgs_eq (argv : List String) :
    Invocation.ofArgs argv = (Invocation.ofArgs (Args.separate argv).flagged).map fun inv =>
      { inv with positional := (Args.separate argv).positional } := by
  have hside := Passes.separate_of_not_mem (Passes.separator_not_mem_flagged argv)
  simp only [Invocation.ofArgs, hside]
  cases (Args.extract Invocation.valueFlags (Args.separate argv).flagged).result with
  | error e => rfl
  | ok pairs =>
    dsimp only
    cases (Args.takeOutput
        (Args.extract Invocation.valueFlags (Args.separate argv).flagged).rest).result with
    | error e => rfl
    | ok format? => rfl

theorem words_sublist {argv : List String} {inv : Invocation}
    (h : Invocation.ofArgs argv = .ok inv) :
    inv.words.Sublist (Args.separate argv).flagged := by
  obtain ⟨pairs, hp⟩ := exists_passed h
  have hw := congrArg Prod.snd hp.switch
  change inv.words = _ at hw
  rw [hw]
  exact (Passes.takeSwitch_sublist _ _).trans
    ((Passes.takeOutput_sublist _).trans (Passes.extract_sublist _ _))

theorem noFormatFlag_words {argv : List String} {inv : Invocation}
    (h : Invocation.ofArgs argv = .ok inv) : Passes.NoFormatFlag inv.words := by
  obtain ⟨pairs, hp⟩ := exists_passed h
  have hw := congrArg Prod.snd hp.switch
  change inv.words = _ at hw
  rw [hw]
  exact Passes.noFormatFlag_of_sublist (Passes.noFormatFlag_rest hp.format)
    (Passes.takeSwitch_sublist _ _)

/-- The arguments of a plan hold neither the separator nor a format flag. -/
structure Clean (p : Plan) : Prop where
  separator : "--" ∉ p.args
  format : Passes.NoFormatFlag p.args

theorem clean_of_plan {w : World} {s : Session} {argv : List String} {p : Plan}
    (h : plan w s argv = .ok p) : Clean p := by
  obtain ⟨inv, c, hs⟩ := exists_source h
  have hargs : p.args.Sublist inv.words := by
    rw [hs.words]
    exact List.sublist_cons_self _ _
  refine ⟨fun hm => ?_, Passes.noFormatFlag_of_sublist (noFormatFlag_words hs.flags) hargs⟩
  exact Passes.separator_not_mem_flagged argv
    ((hargs.trans (words_sublist hs.flags)).subset hm)

/-- The word that names a subcommand. -/
def wordOf : Subcommand → String
  | .parse => "parse"
  | .complete => "complete"
  | .keywords => "keywords"

theorem ofWord?_eq_some_iff {word : String} {sub : Subcommand} :
    Subcommand.ofWord? word = some sub ↔ word = wordOf sub := by
  constructor
  · intro h
    unfold Subcommand.ofWord? at h
    split at h
    · next hword => rw [hword, ← Option.some.inj h, wordOf]
    split at h
    · next hword => rw [hword, ← Option.some.inj h, wordOf]
    split at h
    · next hword => rw [hword, ← Option.some.inj h, wordOf]
    · cases h
  · rintro rfl
    cases sub <;> rfl

/-- How parsing ends: the input is asked for and cannot be read, the arguments are refused, or the
lines are answered. -/
inductive Parsed (w : World) (s : Session) (format : OutputFormat) (args : List String) :
    Outcome → Prop
  | unread {reason : String} (hasked : Parse.readsInput args = true)
      (hinput : w.input = .error reason) :
      Parsed w s format args (.failed s [] (.plain reason))
  | refused {input : String} {e : UsageError}
      (h : Parse.run (w.appearance s.color?) format input args = .error e) :
      Parsed w s format args (.failed s [] (.usage e))
  | answered {input : String} {r : Parse.Response}
      (h : Parse.run (w.appearance s.color?) format input args = .ok r) :
      Parsed w s format args (.answered s r.stdout (debugLines s r.log ++ r.stderr) r.exitCode?)

theorem asked_of_inputFor {w : World} {args : List String} {reason : String}
    (h : inputFor w args = .error reason) :
    Parse.readsInput args = true ∧ w.input = .error reason := by
  unfold inputFor at h
  split at h
  · next hasked => exact ⟨hasked, h⟩
  · cases h

theorem parsed_runParse (w : World) (s : Session) (format : OutputFormat) (args : List String) :
    Parsed w s format args (runParse w s format args) := by
  unfold runParse
  cases hi : inputFor w args with
  | error reason =>
    obtain ⟨hasked, hinput⟩ := asked_of_inputFor hi
    exact .unread hasked hinput
  | ok input =>
    dsimp only
    cases hr : Parse.run (w.appearance s.color?) format input args with
    | error e => exact .refused hr
    | ok r => exact .answered hr

end DeviceShell.Proofs.Plans
