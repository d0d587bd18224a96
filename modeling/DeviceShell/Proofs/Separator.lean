import DeviceShell.Proofs.Plans

/-!
# Behind the separator

Everything that a run settles before it hands over is settled by the arguments before `--`: the file,
the level, the colour, the format, and whether a subcommand is reached at all. What stands behind
`--` should then be operands and nothing else, and `obey` says what a subcommand does with operands.

Parsing and completing obey for every tail. The listing of keywords reads format flags from its whole
argument list, so a tail can change its format or make it fail. `run_separated_iff` states when a run
obeys; it is not claimed of every run, because it does not hold of every run.
-/
namespace DeviceShell.Proofs.Separator

open Cli Cli.Args
open Passes (NoFormatFlag)
open Plans (Clean)

/-- The same plan with other texts behind the separator. -/
def withTail (tail : List String) (p : Plan) : Plan := { p with positional := tail }

/-- The input as far as the operands leave it to be read: not at all if there is one. -/
def operandInput (w : World) (p : Plan) : Except String String :=
  if (p.args ++ p.positional).isEmpty then w.input else .ok ""

/-- The lines to parse: the operands, or the input when there is no operand. Only a word before the
separator can be refused as a flag. -/
def parseOperands (input : String) (p : Plan) : Except UsageError Parse.Request :=
  match p.args.find? isFlag with
  | some flag => .error (.unknownFlag flag)
  | none =>
    let given := p.args ++ p.positional
    let lines := if given.isEmpty then Batch.split input else Batch.number given
    if lines.isEmpty then .error .noLines else .ok ⟨p.format, lines⟩

/-- The operands are parsed, unless the input stands in for them and cannot be read. -/
def obeyParse (w : World) (p : Plan) : Outcome :=
  match operandInput w p with
  | .error reason => .failed p.session [] (.plain reason)
  | .ok input =>
    match (parseOperands input p).map (Parse.respond (w.appearance p.session.color?)) with
    | .error e => .failed p.session [] (.usage e)
    | .ok r => .answered p.session r.stdout (debugLines p.session r.log ++ r.stderr) r.exitCode?

/-- The one operand is completed, or the empty text without operands. -/
def completeOperand (p : Plan) : Except UsageError Catalogue.Request :=
  match p.args ++ p.positional with
  | [] => .ok ⟨p.format, .of ""⟩
  | [typed] => .ok ⟨p.format, .of typed⟩
  | _ => .error .surplusPrefix

/-- A plan is carried out in its own format, and the tail counts as operands only. -/
def obey (w : World) (p : Plan) : Outcome :=
  let o : Outcome := match Subcommand.ofWord? p.word with
    | some .parse => obeyParse w p
    | some .complete =>
      match completeOperand p with
      | .error e => .failed p.session [] (.usage e)
      | .ok r => .answered p.session (r.completion.stdout r.format) [] r.completion.exitCode?
    | some .keywords => .answered p.session (Catalogue.listing p.format) [] none
    | none => help w p.session (some ("Unknown command '" ++ p.word ++ "'.")) 1
  o.after (debugLines p.session (loadedMessages p.path?))

/-- A run whose arguments before the separator settle everything but the operands. -/
def obedientRun (w : World) (s : Session) (front tail : List String) : Outcome :=
  match plan w s (front ++ ["--"]) with
  | .error o => o
  | .ok p => obey w (withTail tail p)

/-- A listing in this format is not disturbed by the tail: it holds no format flag, or the last of
them, all being proper, names the format that is in force anyway. -/
def Undisturbed (format : OutputFormat) (tail : List String) : Prop :=
  NoFormatFlag tail ∨ (takeOutput tail).result = .ok (some format)

theorem ofArgs_separated {front : List String} (h : "--" ∉ front) (tail : List String) :
    Invocation.ofArgs (front ++ "--" :: tail) =
      (Invocation.ofArgs (front ++ ["--"])).map fun inv => { inv with positional := tail } := by
  rw [Plans.ofArgs_eq (front ++ "--" :: tail), Plans.ofArgs_eq (front ++ ["--"]),
    Passes.separate_append h, Passes.separate_append h]
  cases Invocation.ofArgs front <;> rfl

theorem planUnder_tail (inv : Invocation) (c : Config) (word : String) (args tail : List String) :
    planUnder { inv with positional := tail } c word args =
      (planUnder inv c word args).map (withTail tail) := by
  simp only [planUnder, flagColor]
  cases LogLevel.choose inv.level? c.level <;> rfl

theorem planInvocation_tail (w : World) (s : Session) (inv : Invocation) (tail : List String) :
    planInvocation w s { inv with positional := tail } =
      (planInvocation w s inv).map (withTail tail) := by
  rw [planInvocation, planInvocation]
  cases inv.words with
  | nil => rfl
  | cons word args =>
    dsimp only
    split
    · rfl
    split
    · rfl
    split
    · rfl
    cases w.load inv.configPath? with
    | error e => rfl
    | ok c => exact planUnder_tail inv c word args tail

/-- The tail changes nothing in a plan but the tail. -/
theorem plan_separated (w : World) (s : Session) {front : List String} (h : "--" ∉ front)
    (tail : List String) :
    plan w s (front ++ "--" :: tail) = (plan w s (front ++ ["--"])).map (withTail tail) := by
  have hne : ∀ rest : List String, (front ++ "--" :: rest).isEmpty = false := by
    intro rest
    cases front <;> rfl
  rw [plan, plan, hne, hne, ofArgs_separated h]
  cases Invocation.ofArgs (front ++ ["--"]) with
  | error e => rfl
  | ok inv => exact planInvocation_tail w _ inv tail

theorem separate_passedOn {args : List String} (h : "--" ∉ args) (tail : List String) :
    separate (Invocation.passedOn args tail) = ⟨args, tail⟩ := by
  cases tail with
  | nil => exact Passes.separate_of_not_mem h
  | cons text tail => exact Passes.separate_append h

theorem readsInput_passedOn {p : Plan} (h : Clean p) :
    Parse.readsInput (Invocation.passedOn p.args p.positional) =
      (p.args ++ p.positional).isEmpty := by
  rw [Parse.readsInput, separate_passedOn h.separator]
  simp only [Passes.takeOutput_of_noFormatFlag h.format]

theorem inputFor_passedOn {p : Plan} (h : Clean p) (w : World) :
    inputFor w (Invocation.passedOn p.args p.positional) = operandInput w p := by
  rw [inputFor, readsInput_passedOn h, operandInput]

theorem parse_request_eq {p : Plan} (h : Clean p) (input : String) :
    Parse.request p.format input (Invocation.passedOn p.args p.positional) =
      parseOperands input p := by
  rw [Parse.request, separate_passedOn h.separator, parseOperands]
  cases hf : p.args.find? isFlag with
  | some flag => simp only [Passes.takeOutput_of_noFormatFlag h.format, hf]
  | none => simp only [Passes.takeOutput_of_noFormatFlag h.format, Option.getD_none, hf]

theorem runParse_passedOn {p : Plan} (h : Clean p) (w : World) :
    runParse w p.session p.format (Invocation.passedOn p.args p.positional) = obeyParse w p := by
  have hrun : ∀ input, Parse.run (w.appearance p.session.color?) p.format input
      (Invocation.passedOn p.args p.positional) =
        (parseOperands input p).map (Parse.respond (w.appearance p.session.color?)) := by
    intro input
    rw [Parse.run, parse_request_eq h]
  rw [runParse, obeyParse, inputFor_passedOn h]
  cases operandInput w p with
  | error reason => rfl
  | ok input =>
    cases hr : (parseOperands input p).map (Parse.respond (w.appearance p.session.color?)) with
    | error e => simp only [hrun, hr]
    | ok r => simp only [hrun, hr]

theorem complete_eq {p : Plan} (h : Clean p) :
    Catalogue.complete p.format (Invocation.passedOn p.args p.positional) =
      completeOperand p := by
  rw [Catalogue.complete, separate_passedOn h.separator, completeOperand]
  rcases hg : p.args ++ p.positional with _ | ⟨typed, _ | ⟨extra, more⟩⟩
  · simp only [Passes.takeOutput_of_noFormatFlag h.format, Option.getD_none, hg]
  · simp only [Passes.takeOutput_of_noFormatFlag h.format, Option.getD_none, hg]
  · simp only [Passes.takeOutput_of_noFormatFlag h.format, hg]

theorem carryOut_eq_obey {w : World} {p : Plan} (h : Clean p) (hw : p.word ≠ "keywords") :
    p.carryOut w = obey w p := by
  have hk : Subcommand.ofWord? p.word ≠ some .keywords := fun he => hw (Plans.ofWord?_eq_some_iff.mp he)
  rw [Plan.carryOut, dispatch, obey]
  cases hs : Subcommand.ofWord? p.word with
  | none => rfl
  | some sub =>
    -- The second format pass of each handler goes over words that hold no format flag.
    cases sub with
    | parse =>
      dsimp only
      rw [runParse_passedOn h]
    | complete =>
      cases hr : completeOperand p with
      | error e => simp only [runComplete, complete_eq h, hr]
      | ok r => simp only [runComplete, complete_eq h, hr]
    | keywords => exact absurd hs hk

theorem keywords_passedOn {args : List String} (h : NoFormatFlag args) (format : OutputFormat)
    (tail : List String) :
    (Catalogue.keywords format (Invocation.passedOn args tail)).result =
      (takeOutput tail).result.map fun chosen => Catalogue.listing (chosen.getD format) := by
  rw [Catalogue.keywords, Pass.result_map]
  cases tail with
  | nil =>
    rw [Invocation.passedOn, List.isEmpty_nil, if_pos rfl, Passes.takeOutput_of_noFormatFlag h]
    rfl
  | cons text tail =>
    rw [Invocation.passedOn, List.isEmpty_cons, if_neg Bool.false_ne_true,
      Passes.takeOutput_append h, Passes.takeOutput_keep (by decide) (by decide),
      Pass.result_keep]

/-- How the listing ends when the tail is read for format flags. -/
def listTail (p : Plan) : Outcome :=
  match (takeOutput p.positional).result with
  | .error e => .failed p.session [] (.usage e)
  | .ok chosen => .answered p.session (Catalogue.listing (chosen.getD p.format)) [] none

theorem carryOut_keywords {w : World} {p : Plan} (h : Clean p) (hw : p.word = "keywords") :
    p.carryOut w = (listTail p).after (debugLines p.session (loadedMessages p.path?)) := by
  have hsub : Subcommand.ofWord? p.word = some .keywords := Plans.ofWord?_eq_some_iff.mpr hw
  rw [Plan.carryOut, dispatch, hsub]
  simp only [runKeywords, keywords_passedOn h.format, listTail]
  cases (takeOutput p.positional).result <;> rfl

theorem obey_keywords {w : World} {p : Plan} (hw : p.word = "keywords") :
    obey w p = (Outcome.answered p.session (Catalogue.listing p.format) [] none).after
      (debugLines p.session (loadedMessages p.path?)) := by
  have hsub : Subcommand.ofWord? p.word = some .keywords := Plans.ofWord?_eq_some_iff.mpr hw
  rw [obey, hsub]

/-- The two formats of the listing can be told apart. -/
theorem listing_injective {f g : OutputFormat} (h : Catalogue.listing f = Catalogue.listing g) :
    f = g := by
  have hl := congrArg List.length h
  cases f with
  | text =>
    cases g with
    | text => rfl
    | json => cases hl
  | json =>
    cases g with
    | text => cases hl
    | json => rfl

theorem after_injective {opening : List String} {o o' : Outcome}
    (h : o.after opening = o'.after opening) : o = o' := by
  obtain ⟨hs, ho, he, hx, hf⟩ := Outcome.mk.inj h
  cases o
  cases o'
  rw [Outcome.mk.injEq]
  exact ⟨hs, ho, List.append_cancel_left he, hx, hf⟩

theorem listTail_eq_iff (p : Plan) :
    listTail p = .answered p.session (Catalogue.listing p.format) [] none ↔
      Undisturbed p.format p.positional := by
  rw [listTail, Undisturbed, Passes.noFormatFlag_iff]
  cases (takeOutput p.positional).result with
  | error e =>
    refine ⟨fun h => ?_, fun h => ?_⟩
    · cases congrArg Outcome.failure? h
    · rcases h with h | h <;> cases h
  | ok chosen =>
    cases chosen with
    | none => exact ⟨fun _ => .inl rfl, fun _ => rfl⟩
    | some format =>
      constructor
      · intro h
        have hf : format = p.format := listing_injective (congrArg Outcome.stdout h)
        exact .inr (by rw [hf])
      · rintro (h | h)
        · cases h
        · obtain rfl := Option.some.inj (Except.ok.inj h)
          rfl

theorem carryOut_eq_obey_iff {w : World} {p : Plan} (h : Clean p) :
    p.carryOut w = obey w p ↔ (p.word = "keywords" → Undisturbed p.format p.positional) := by
  by_cases hw : p.word = "keywords"
  · rw [carryOut_keywords h hw, obey_keywords hw]
    constructor
    · intro he _
      exact (listTail_eq_iff p).mp (after_injective he)
    · intro hu
      rw [(listTail_eq_iff p).mpr (hu hw)]
  · exact ⟨fun _ he => absurd he hw, fun _ => carryOut_eq_obey h hw⟩

theorem run_eq_carryOut {w : World} {s : Session} {argv : List String} {p : Plan}
    (h : plan w s argv = .ok p) : run w s argv = p.carryOut w := by
  rw [run, h]

/-- A run obeys the separator unless it lists the keywords and the tail disturbs the format. What
the listing then does is settled by the tail. -/
theorem run_separated_iff (w : World) (s : Session) (front tail : List String)
    (h : "--" ∉ front) :
    plan w s (front ++ "--" :: tail) = (plan w s (front ++ ["--"])).map (withTail tail) ∧
    (run w s (front ++ "--" :: tail) = obedientRun w s front tail ↔
      ∀ p, plan w s (front ++ ["--"]) = .ok p → p.word = "keywords" →
        Undisturbed p.format tail) ∧
    ∀ p, plan w s (front ++ ["--"]) = .ok p → p.word = "keywords" →
      run w s (front ++ "--" :: tail) =
        (listTail (withTail tail p)).after (debugLines p.session (loadedMessages p.path?)) := by
  have hplan := plan_separated w s h tail
  refine ⟨hplan, ?_⟩
  rw [obedientRun]
  cases hp : plan w s (front ++ ["--"]) with
  | error o =>
    rw [hp] at hplan
    refine ⟨⟨fun _ q hq => ?_, fun _ => ?_⟩, fun q hq => ?_⟩
    · cases hq
    · rw [run, hplan]
      rfl
    · cases hq
  | ok p =>
    rw [hp] at hplan
    have hrun := run_eq_carryOut hplan
    have hclean : Clean (withTail tail p) := Plans.clean_of_plan hplan
    have hiff := carryOut_eq_obey_iff (w := w) hclean
    -- The plan for the bare front is the same plan but for the tail, so its word decides.
    rw [hrun]
    refine ⟨⟨fun he q hq hw => ?_, fun hu => ?_⟩, fun q hq hw => ?_⟩
    · obtain rfl := Except.ok.inj hq
      exact hiff.mp he hw
    · exact hiff.mpr (hu p rfl)
    · obtain rfl := Except.ok.inj hq
      exact carryOut_keywords hclean hw

/-- A completion takes a flag behind the separator for the text to complete. -/
theorem complete_behind_separator :
    "--" ∉ ["--json", "complete"] ∧
    run .empty .fresh ["--json", "complete", "--", "--no-color"] =
      obedientRun .empty .fresh ["--json", "complete"] ["--no-color"] := by
  refine ⟨by decide, ?_⟩
  have h := run_separated_iff .empty .fresh ["--json", "complete"] ["--no-color"] (by decide)
  refine h.2.1.mpr fun p hp hw => ?_
  have hword : p.word = "complete" := by
    obtain rfl := Except.ok.inj hp
    rfl
  rw [hword] at hw
  exact absurd hw (by decide)

/-- A listing changes its format for a flag behind the separator. -/
theorem keywords_behind_separator :
    "--" ∉ ["keywords"] ∧
    run .empty .fresh ["keywords", "--", "--json"] ≠
      obedientRun .empty .fresh ["keywords"] ["--json"] := by
  refine ⟨by decide, fun h => ?_⟩
  have hl : (Catalogue.listing .json).length = (Catalogue.listing .text).length :=
    congrArg (fun o : Outcome => o.stdout.length) h
  cases hl

end DeviceShell.Proofs.Separator
