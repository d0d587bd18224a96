import DeviceShell.Proofs.InPlace
import DeviceShell.Proofs.Separator
import DeviceShell.Proofs.TakenOut

/-!
# What a pass that fails leaves behind

A pass that fails has taken out what it met in front of the first offence and leaves the list from there
on as it was. Within a run this happens at one of two places. The passes for the global flags come
before anything else, so when one of them fails the run has done nothing and the session is as it was
found. The listing of keywords lets a pass of its own go over its arguments, those behind `--` too; by
then the settings are in force, and level and colour stay as the settings have them. In either case the
arguments of the caller are left alone. `stopped_pass` states all of this, and `listing_stopped_late`
is a run of the second kind.
-/
namespace DeviceShell.Proofs.StoppedPasses

open Cli Cli.Args
open InPlace (Memory listAt runOn)
open LastFlag (FlagNames)
open Passes (NoFormatFlag)
open TakenOut (OffendsAt Unformatted Unvalued spared)

/-- A pass has stopped at this place: it is the first where an argument offends, everything of the pass
is gone in front of it, and from there on nothing has changed. -/
structure StoppedAt (flags switches : List String) (wrong : String → Option String → Prop)
    (args left : List String) (i : Nat) : Prop where
  first : IsLeast {j | OffendsAt wrong args j} i
  left : left = spared flags switches (args.take i) ++ args.drop i

theorem exists_stoppedAt {α : Type} {flags switches : List String}
    {wrong : String → Option String → Prop} {args : List String} {p : Pass α} {e : UsageError}
    (hreached : ∃ i, TakenOut.Reached flags switches wrong args p i) (h : p.result = .error e) :
    ∃ i, StoppedAt flags switches wrong args p.rest i := by
  obtain ⟨i, hi⟩ := hreached
  have hfailed : ¬ FlagValues.Succeeds p := by
    intro hok
    obtain ⟨a, ha⟩ := hok
    rw [h] at ha
    cases ha
  exact ⟨i, hi.isLeast hfailed, hi.rest⟩

/-- The misuse that a pass finds: a flag without a value, or a format that is none. -/
inductive OfPass : UsageError → Prop
  | missingValue (flag : String) : OfPass (.missingValue flag)
  | unknownFormat : OfPass .unknownFormat

theorem ofPass_of_extract {names args : List String} {e : UsageError}
    (h : (extract names args).result = .error e) : OfPass e := by
  fun_induction extract names args with
  | case1 => cases h
  | case2 arg _ => cases h; exact .missingValue arg
  | case3 arg _ value rest _ => cases h; exact .missingValue arg
  | case4 _ _ _ _ _ ih => exact ih (Passes.error_of_map h)
  | case5 _ _ _ ih => exact ih h

theorem ofPass_of_takeOutput {args : List String} {e : UsageError}
    (h : (takeOutput args).result = .error e) : OfPass e := by
  fun_induction takeOutput args with
  | case1 => cases h
  | case2 => cases h; exact .missingValue "--output"
  | case3 => cases h; exact .missingValue "--output"
  | case4 => cases h; exact .unknownFormat
  | case5 _ _ _ _ _ ih => exact ih (Passes.error_of_map h)
  | case6 _ _ ih => exact ih (Passes.error_of_map h)
  | case7 _ _ _ _ ih => exact ih h

/-- Everything is as it was before the run. -/
structure Untouched (s : Session) (o : Outcome) : Prop where
  session : o.session = s
  stdout : o.stdout = []
  stderr : o.stderr = []
  exitCode : o.exitCode? = none

/-- How a pass fails within a run: over the global flags, before anything else, or over the arguments of
the listing, under the settings of its plan. -/
inductive Stopped (w : World) (s : Session) (argv : List String) (e : UsageError) : Outcome → Prop
  | flags (h : Invocation.ofArgs argv = .error e) :
      Stopped w s argv e (.failed s [] (.usage e))
  | listing {p : Plan} (hp : plan w s argv = .ok p) (hw : p.word = "keywords")
      (h : (takeOutput p.positional).result = .error e) :
      Stopped w s argv e
        (.failed p.session (debugLines p.session (loadedMessages p.path?)) (.usage e))

theorem not_ofPass_of_parseOperands {input : String} {p : Plan} {e : UsageError}
    (h : Separator.parseOperands input p = .error e) : ¬ OfPass e := by
  unfold Separator.parseOperands at h
  split at h
  · obtain rfl := Except.error.inj h
    intro he
    cases he
  · dsimp only at h
    split at h
    · split at h
      · obtain rfl := Except.error.inj h
        intro he
        cases he
      · cases h
    · split at h
      · obtain rfl := Except.error.inj h
        intro he
        cases he
      · cases h

theorem not_ofPass_of_obeyParse {w : World} {p : Plan} {e : UsageError}
    (h : (Separator.obeyParse w p).failure? = some (.usage e)) : ¬ OfPass e := by
  unfold Separator.obeyParse at h
  cases hi : Separator.operandInput w p with
  | error reason => rw [hi] at h; cases h
  | ok input =>
    rw [hi] at h
    dsimp only at h
    cases hr : Separator.parseOperands input p with
    | error e' =>
      rw [hr] at h
      cases h
      exact not_ofPass_of_parseOperands hr
    | ok r => rw [hr] at h; cases h

theorem not_ofPass_of_completeOperand {p : Plan} {e : UsageError}
    (h : Separator.completeOperand p = .error e) : ¬ OfPass e := by
  unfold Separator.completeOperand at h
  split at h
  · cases h
  · cases h
  · obtain rfl := Except.error.inj h
    intro he
    cases he

/-- A subcommand that takes everything behind the separator for operands meets no flag without a
value. -/
theorem not_ofPass_of_obey {w : World} {p : Plan} {e : UsageError}
    (h : (Separator.obey w p).failure? = some (.usage e)) : ¬ OfPass e := by
  unfold Separator.obey at h
  cases hs : Subcommand.ofWord? p.word with
  | none => rw [hs] at h; cases h
  | some sub =>
    rw [hs] at h
    cases sub with
    | parse => exact not_ofPass_of_obeyParse h
    | complete =>
      cases hr : Separator.completeOperand p with
      | error e' =>
        rw [hr] at h
        cases h
        exact not_ofPass_of_completeOperand hr
      | ok r => rw [hr] at h; cases h
    | keywords => cases h

theorem stopped_of_carryOut {w : World} {s : Session} {argv : List String} {p : Plan}
    {e : UsageError} (hp : plan w s argv = .ok p) (he : OfPass e)
    (h : (p.carryOut w).failure? = some (.usage e)) : Stopped w s argv e (p.carryOut w) := by
  have hclean := Plans.clean_of_plan hp
  by_cases hw : p.word = "keywords"
  · rw [Separator.carryOut_keywords hclean hw, Separator.listTail] at h ⊢
    cases hr : (takeOutput p.positional).result with
    | error e' =>
      rw [hr] at h
      cases h
      have hstopped := Stopped.listing hp hw hr
      rw [← List.append_nil (debugLines _ _)] at hstopped
      exact hstopped
    | ok chosen => rw [hr] at h; cases h
  · rw [Separator.carryOut_eq_obey hclean hw] at h
    exact absurd he (not_ofPass_of_obey h)

/-- Where a run fails for what a pass finds. -/
theorem stopped_of_run {w : World} {s : Session} {argv : List String} {e : UsageError}
    (he : OfPass e) (h : (run w s argv).failure? = some (.usage e)) :
    Stopped w s argv e (run w s argv) := by
  unfold run at h ⊢
  cases hp : plan w s argv with
  | error o =>
    rw [hp] at h
    cases Plans.ended_of_plan hp with
    | misused hi =>
      cases h
      exact .flags hi
    | misnamed _ _ _ =>
      cases h
      cases he
    | @unloaded _ f _ _ => cases f <;> cases h
    | _ => cases h
  | ok p =>
    rw [hp] at h
    exact stopped_of_carryOut hp he h

/-- When a run that fails so has changed nothing: the settings in force by then, if any, are those of the
session, and no file that was loaded has been logged. -/
theorem untouched_iff_of_stopped {w : World} {s : Session} {argv : List String} {e : UsageError}
    {o : Outcome} (h : Stopped w s argv e o) :
    Untouched s o ↔ ∀ p, plan w s argv = .ok p →
      p.session = s ∧ debugLines p.session (loadedMessages p.path?) = [] := by
  cases h with
  | flags hi =>
    have hplan : ∀ p, plan w s argv ≠ .ok p := by
      intro p hp
      unfold plan at hp
      rw [hi] at hp
      split at hp <;> cases hp
    constructor
    · intro _ p hp
      exact absurd hp (hplan p)
    · intro _
      exact ⟨rfl, rfl, rfl, rfl⟩
  | @listing p hp _ _ =>
    constructor
    · intro hsame q hq
      obtain rfl : p = q := Except.ok.inj (hp.symm.trans hq)
      exact ⟨hsame.session, hsame.stderr⟩
    · intro hall
      obtain ⟨hsession, hlines⟩ := hall p hp
      exact ⟨hsession, rfl, hlines, rfl⟩

/-- Unless a listing reads flags behind the separator, a run that fails so has changed nothing. -/
theorem untouched_of_stopped {w : World} {s : Session} {argv : List String} {e : UsageError}
    {o : Outcome} (h : Stopped w s argv e o)
    (hlisting : ∀ p, plan w s argv = .ok p → p.word = "keywords" → NoFormatFlag p.positional) :
    Untouched s o := by
  cases h with
  | flags _ => exact ⟨rfl, rfl, rfl, rfl⟩
  | listing hp hw hr =>
    rw [Passes.takeOutput_of_noFormatFlag (hlisting _ hp hw)] at hr
    cases hr

/-- What a pass that fails leaves, by itself and within a run. Both passes stop at the first offence,
with everything of theirs gone in front of it. A run that fails for it, here on arguments that stand in
a memory of lists, leaves these lists alone and has no results and no exit code. It has changed nothing
at all exactly if the settings it had taken over were those of the session, and so always unless the
listing reads flags behind the separator. -/
theorem stopped_pass (w : World) (s : Session) (m : Memory) (n : Nat) :
    (∀ names, FlagNames names → ∀ args e, (extract names args).result = .error e →
      OfPass e ∧ ∃ i, StoppedAt names [] (Unvalued names) args (extract names args).rest i) ∧
    (∀ args e, (takeOutput args).result = .error e →
      OfPass e ∧
        ∃ i, StoppedAt ["--output"] ["--json"] Unformatted args (takeOutput args).rest i) ∧
    ∀ e, OfPass e → (run w s (listAt m n)).failure? = some (.usage e) →
      ((runOn w s n m).1 = run w s (listAt m n) ∧ m <+: (runOn w s n m).2) ∧
      Stopped w s (listAt m n) e (run w s (listAt m n)) ∧
      (Untouched s (run w s (listAt m n)) ↔ ∀ p, plan w s (listAt m n) = .ok p →
        p.session = s ∧ debugLines p.session (loadedMessages p.path?) = []) ∧
      ((∀ p, plan w s (listAt m n) = .ok p → p.word = "keywords" → NoFormatFlag p.positional) →
        Untouched s (run w s (listAt m n))) := by
  refine ⟨?_, ?_, ?_⟩
  · intro names hnames args e h
    exact ⟨ofPass_of_extract h, exists_stoppedAt (TakenOut.exists_reached_extract hnames args) h⟩
  · intro args e h
    exact ⟨ofPass_of_takeOutput h, exists_stoppedAt (TakenOut.exists_reached_takeOutput args) h⟩
  · intro e he h
    have hstopped := stopped_of_run he h
    exact ⟨InPlace.runOn_eq w s n m, hstopped, untouched_iff_of_stopped hstopped,
      untouched_of_stopped hstopped⟩

/-- A format flag without a format, behind a level and a flag of the other pass. -/
theorem stopped_pass_halfway :
    (FlagNames ["--config"] ∧
      (extract ["--config"] ["--config", "a", "list", "--config", "--json"]).result =
        .error (.missingValue "--config") ∧
      (extract ["--config"] ["--config", "a", "list", "--config", "--json"]).rest =
        ["list", "--config", "--json"] ∧
      ∃ i, StoppedAt ["--config"] [] (Unvalued ["--config"])
        ["--config", "a", "list", "--config", "--json"] ["list", "--config", "--json"] i) ∧
    ((takeOutput ["--json", "list", "--output", "xml", "--json"]).result = .error .unknownFormat ∧
      ∃ i, StoppedAt ["--output"] ["--json"] Unformatted
        ["--json", "list", "--output", "xml", "--json"] ["list", "--output", "xml", "--json"] i) ∧
    (run .empty ⟨.error, some true⟩ ["--log-level", "debug", "list", "--output"]).failure? =
        some (.usage (.missingValue "--output")) ∧
      Untouched ⟨.error, some true⟩
        (run .empty ⟨.error, some true⟩ ["--log-level", "debug", "list", "--output"]) := by
  obtain ⟨hextract, houtput, hrun⟩ := stopped_pass .empty ⟨.error, some true⟩
    [["--log-level", "debug", "list", "--output"]] 0
  have hnames : FlagNames ["--config"] := by
    rw [LastFlag.FlagNames]
    decide
  have hfailed : (run .empty ⟨.error, some true⟩
      ["--log-level", "debug", "list", "--output"]).failure? =
        some (.usage (.missingValue "--output")) := rfl
  have hplan : plan .empty ⟨.error, some true⟩ ["--log-level", "debug", "list", "--output"] =
      .error (.failed ⟨.error, some true⟩ [] (.usage (.missingValue "--output"))) := rfl
  refine ⟨⟨hnames, rfl, rfl, (hextract _ hnames _ _ rfl).2⟩, ⟨rfl, (houtput _ _ rfl).2⟩, hfailed, ?_⟩
  apply (hrun _ (.missingValue "--output") hfailed).2.2.2
  intro p hp
  cases hplan.symm.trans hp

/-- A listing that fails for a flag behind the separator leaves another level than it found. -/
theorem listing_stopped_late :
    OfPass (.missingValue "--output") ∧
    (run .empty .fresh ["--log-level", "debug", "keywords", "--", "--output"]).failure? =
      some (.usage (.missingValue "--output")) ∧
    (run .empty .fresh ["--log-level", "debug", "keywords", "--", "--output"]).session =
      ⟨.debug, none⟩ ∧
    ¬ Untouched .fresh
      (run .empty .fresh ["--log-level", "debug", "keywords", "--", "--output"]) := by
  have hsession : (run .empty .fresh
      ["--log-level", "debug", "keywords", "--", "--output"]).session = ⟨.debug, none⟩ := by
    decide +kernel
  refine ⟨.missingValue _, by decide +kernel, hsession, fun h => ?_⟩
  have hsame := h.session
  rw [hsession] at hsame
  exact absurd hsame (by decide)

end DeviceShell.Proofs.StoppedPasses
