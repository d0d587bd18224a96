import DeviceShell.Proofs.Plans

/-!
# Lists that are changed in place

A pass is told as a function from the list that it goes over to the list that it leaves. A program may
as well hold its lists in a memory and let a pass change the list where it stands; then the list that
its caller handed over could be among those that are changed. `runOn` is a run of that kind: it copies
what stands before `--`, lets the passes go over the copy, and hands the copy, or a longer list made of
it, to the subcommand. `runOn_eq` says that it comes to the same outcome as `run`, and that every list
that was in memory before is still there as it was.
-/
namespace DeviceShell.Proofs.InPlace

open Cli Cli.Args

/-- Lists in the order in which they were made; a list is known by its place among them. -/
abbrev Memory := List (List String)

def listAt (m : Memory) (n : Nat) : List String := m.getD n []

/-- Lets a pass go over a list, which then holds what the pass leaves. -/
def passOver {α : Type} (pass : List String → Pass α) (n : Nat) (m : Memory) :
    Except UsageError α × Memory :=
  let p := pass (listAt m n)
  (p.result, m.set n p.rest)

/-- Reads the flags of the arguments at a place; the passes go over a copy, which is the next list. -/
def flagsOn (n : Nat) (m : Memory) : Except UsageError Invocation × Memory :=
  let sides := separate (listAt m n)
  let copy := m.length
  let (values, m) := passOver (extract Invocation.valueFlags) copy (m ++ [sides.flagged])
  match values with
  | .error e => (.error e, m)
  | .ok pairs =>
    let (output, m) := passOver takeOutput copy m
    match output with
    | .error e => (.error e, m)
    | .ok format? =>
      let (noColor, words) := takeSwitch "--no-color" (listAt m copy)
      (.ok ⟨valueOf? "--config" pairs, valueOf? "--log-level" pairs, format?, noColor, words,
        sides.positional⟩, m.set copy words)

/-- Hands the list at a place to a subcommand. The listing takes its format flags out of that very list;
parsing and completing take them out of a copy. -/
def dispatchOn (w : World) (s : Session) (format : OutputFormat) (word : String) (n : Nat)
    (m : Memory) : Outcome × Memory :=
  match Subcommand.ofWord? word with
  | some .keywords =>
    let (output, m) := passOver takeOutput n m
    match output with
    | .error e => (.failed s [] (.usage e), m)
    | .ok chosen => (.answered s (Catalogue.listing (chosen.getD format)) [] none, m)
  | some .parse | some .complete =>
    (dispatch w s format word (listAt m n),
      m ++ [(takeOutput (separate (listAt m n)).flagged).rest])
  | none => (dispatch w s format word (listAt m n), m)

/-- Carries a plan out whose words stand at a place. With texts behind the separator the subcommand is
handed a list of its own. -/
def carryOutOn (w : World) (p : Plan) (n : Nat) (m : Memory) : Outcome × Memory :=
  let (o, m) :=
    if p.positional.isEmpty then dispatchOn w p.session p.format p.word n m
    else dispatchOn w p.session p.format p.word m.length
      (m ++ [listAt m n ++ "--" :: p.positional])
  (o.after (debugLines p.session (loadedMessages p.path?)), m)

/-- One run on the arguments at a place. The first word is taken out of the copy too. -/
def runOn (w : World) (s : Session) (n : Nat) (m : Memory) : Outcome × Memory :=
  if (listAt m n).isEmpty then (help w s none 1, m)
  else
    let copy := m.length
    let (flags, m) := flagsOn n m
    match flags with
    | .error e => (.failed s [] (.usage e), m)
    | .ok inv =>
      let m := m.set copy inv.words.tail
      match planInvocation w { s with color? := flagColor inv } inv with
      | .error o => (o, m)
      | .ok p => carryOutOn w p copy m

theorem listAt_append (m : Memory) (args : List String) : listAt (m ++ [args]) m.length = args := by
  simp [listAt]

theorem set_append (m : Memory) (args left : List String) :
    (m ++ [args]).set m.length left = m ++ [left] := by
  simp

theorem passOver_append {α : Type} (pass : List String → Pass α) (m : Memory)
    (args : List String) :
    passOver pass m.length (m ++ [args]) = ((pass args).result, m ++ [(pass args).rest]) := by
  rw [passOver, listAt_append, set_append]

/-- Reading the flags in place reads them alike, and only adds a list: the words, or what the pass that
failed has left. -/
theorem flagsOn_eq (n : Nat) (m : Memory) :
    (∀ inv, Invocation.ofArgs (listAt m n) = .ok inv →
      flagsOn n m = (.ok inv, m ++ [inv.words])) ∧
    ∀ e, Invocation.ofArgs (listAt m n) = .error e →
      ∃ left, flagsOn n m = (.error e, m ++ [left]) := by
  simp only [Invocation.ofArgs, flagsOn, passOver_append]
  cases (extract Invocation.valueFlags (separate (listAt m n)).flagged).result with
  | error e =>
    constructor
    · intro inv hinv
      cases hinv
    · intro e' he
      obtain rfl := Except.error.inj he
      exact ⟨_, rfl⟩
  | ok pairs =>
    dsimp only
    cases (takeOutput (extract Invocation.valueFlags (separate (listAt m n)).flagged).rest).result with
    | error e =>
      constructor
      · intro inv hinv
        cases hinv
      · intro e' he
        obtain rfl := Except.error.inj he
        exact ⟨_, rfl⟩
    | ok format? =>
      constructor
      · intro inv hinv
        obtain rfl := Except.ok.inj hinv
        rw [listAt_append, set_append]
      · intro e' he
        cases he

/-- A subcommand that is handed the newest list answers alike and leaves the lists before it. -/
theorem dispatchOn_eq (w : World) (s : Session) (format : OutputFormat) (word : String)
    (args : List String) (m : Memory) :
    (dispatchOn w s format word m.length (m ++ [args])).1 = dispatch w s format word args ∧
    m <+: (dispatchOn w s format word m.length (m ++ [args])).2 := by
  rw [dispatchOn, passOver_append, listAt_append]
  cases hw : Subcommand.ofWord? word with
  | none => exact ⟨rfl, List.prefix_append _ _⟩
  | some sub =>
    cases sub with
    | parse => exact ⟨rfl, (List.prefix_append _ _).trans (List.prefix_append _ _)⟩
    | complete => exact ⟨rfl, (List.prefix_append _ _).trans (List.prefix_append _ _)⟩
    | keywords =>
      simp only [dispatch, hw, runKeywords, Catalogue.keywords, Pass.result_map]
      cases (takeOutput args).result <;> exact ⟨rfl, List.prefix_append _ _⟩

theorem carryOutOn_eq (w : World) (p : Plan) (m : Memory) :
    (carryOutOn w p m.length (m ++ [p.args])).1 = p.carryOut w ∧
    m <+: (carryOutOn w p m.length (m ++ [p.args])).2 := by
  rw [carryOutOn, Plan.carryOut, Invocation.passedOn, listAt_append]
  cases p.positional.isEmpty with
  | true =>
    obtain ⟨ho, hm⟩ := dispatchOn_eq w p.session p.format p.word p.args m
    exact ⟨congrArg (Outcome.after _) ho, hm⟩
  | false =>
    obtain ⟨ho, hm⟩ := dispatchOn_eq w p.session p.format p.word (p.args ++ "--" :: p.positional)
      (m ++ [p.args])
    exact ⟨congrArg (Outcome.after _) ho, (List.prefix_append _ _).trans hm⟩

/-- A run on lists in memory comes to the same outcome and leaves every list that was there. -/
theorem runOn_eq (w : World) (s : Session) (n : Nat) (m : Memory) :
    (runOn w s n m).1 = run w s (listAt m n) ∧ m <+: (runOn w s n m).2 := by
  obtain ⟨hread, hstopped⟩ := flagsOn_eq n m
  unfold runOn
  cases hempty : (listAt m n).isEmpty with
  | true =>
    refine ⟨?_, List.prefix_refl m⟩
    rw [run, plan, hempty]
    rfl
  | false =>
    rw [run, plan, hempty]
    cases hi : Invocation.ofArgs (listAt m n) with
    | error e =>
      obtain ⟨left, hflags⟩ := hstopped e hi
      rw [hflags]
      exact ⟨rfl, List.prefix_append _ _⟩
    | ok inv =>
      rw [hread inv hi]
      dsimp only
      rw [set_append]
      cases hp : planInvocation w { s with color? := flagColor inv } inv with
      | error o => exact ⟨rfl, List.prefix_append _ _⟩
      | ok p =>
        have hplan : plan w s (listAt m n) = .ok p := by
          rw [plan, hempty, hi]
          exact hp
        obtain ⟨inv', c, hs⟩ := Plans.exists_source hplan
        obtain rfl := Except.ok.inj (hi.symm.trans hs.flags)
        rw [hs.words, List.tail_cons]
        exact carryOutOn_eq w p m

end DeviceShell.Proofs.InPlace
