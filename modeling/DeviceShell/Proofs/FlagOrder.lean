import DeviceShell.Proofs.Plans

/-!
# Global flags stand anywhere

The arguments before `--` are an interleaving of plain words and flag groups, a group being a flag
with its value or a flag alone. Three passes go over the list one after another; none of them may take
a word of another group or skip one. Each pass is followed over an arbitrary interleaving, and what
comes out depends only on the plain words in their order and, for each setting, on its last group.
-/
namespace DeviceShell.Proofs.FlagOrder

open Cli Cli.Args

/-- Words that are no plain ones. -/
def reserved : List String :=
  ["--", "--config", "--log-level", "--output", "--json", "--no-color"]

/-- A plain word, or a flag with what belongs to it. -/
inductive Piece where
  | config (path : String) (h : isFlag path = false)
  | level (name : String) (h : isFlag name = false)
  | output (format : OutputFormat)
  | json
  | noColor
  | plain (word : String) (h : word ∉ reserved)
  deriving DecidableEq

/-- What a flag decides. -/
inductive Setting where
  | config
  | level
  | format
  | color
  deriving DecidableEq, Repr

namespace Piece

/-- The arguments that a piece is written with. -/
def args : Piece → List String
  | .config path _ => ["--config", path]
  | .level name _ => ["--log-level", name]
  | .output format => ["--output", format.name]
  | .json => ["--json"]
  | .noColor => ["--no-color"]
  | .plain word _ => [word]

/-- The setting of a group; a plain word has none. -/
def setting? : Piece → Option Setting
  | .config _ _ => some .config
  | .level _ _ => some .level
  | .output _ => some .format
  | .json => some .format
  | .noColor => some .color
  | .plain _ _ => none

/-- The flag of a group. -/
def flag? : Piece → Option String
  | .config _ _ => some "--config"
  | .level _ _ => some "--log-level"
  | .output _ => some "--output"
  | .json => some "--json"
  | .noColor => some "--no-color"
  | .plain _ _ => none

def config? : Piece → Option String
  | .config path _ => some path
  | _ => none

def level? : Piece → Option String
  | .level name _ => some name
  | _ => none

def format? : Piece → Option OutputFormat
  | .output format => some format
  | .json => some .json
  | _ => none

def word? : Piece → Option String
  | .plain word _ => some word
  | _ => none

def isNoColor : Piece → Bool
  | .noColor => true
  | _ => false

end Piece

/-- The separator with what stands behind it, or nothing at all. -/
def closing : Option (List String) → List String
  | none => []
  | some tail => "--" :: tail

/-- The arguments of a run. -/
def argvOf (ps : List Piece) (ending : Option (List String)) : List String :=
  ps.flatMap Piece.args ++ closing ending

/-- What the last piece says that says anything. -/
def lastOf {α : Type} (f : Piece → Option α) (ps : List Piece) : Option α :=
  (ps.filterMap f).getLast?

/-- All that the order of the pieces leaves over. -/
structure Choices where
  words : List String
  config? : Option String
  level? : Option String
  format? : Option OutputFormat
  noColor : Bool
  deriving DecidableEq, Repr

def choices (ps : List Piece) : Choices where
  words := ps.filterMap Piece.word?
  config? := lastOf Piece.config? ps
  level? := lastOf Piece.level? ps
  format? := lastOf Piece.format? ps
  noColor := ps.any Piece.isNoColor

theorem lastOf_cons {α : Type} (f : Piece → Option α) (p : Piece) (ps : List Piece) :
    lastOf f (p :: ps) = (lastOf f ps).or (f p) := by
  rw [lastOf, lastOf]
  cases hf : f p with
  | none => rw [List.filterMap_cons_none hf, Option.or_none]
  | some a =>
    rw [List.filterMap_cons_some hf, List.getLast?_cons]
    cases (ps.filterMap f).getLast? <;> rfl

theorem flag?_of_mem_args {p : Piece} {arg : String} (ha : arg ∈ p.args) (hr : arg ∈ reserved) :
    p.flag? = some arg := by
  -- A value does not look like a flag, so a reserved word in a group is the flag of the group.
  have hflag : ∀ word ∈ reserved, isFlag word = true := by decide
  have hvalue : ∀ {flag value : String}, isFlag value = false → arg ∈ [flag, value] →
      arg = flag := by
    intro flag value hv hm
    rcases List.mem_cons.mp hm with he | hm
    · exact he
    · rw [← List.mem_singleton.mp hm, hflag arg hr] at hv
      cases hv
  cases p with
  | config path h => rw [hvalue h ha]; rfl
  | level name h => rw [hvalue h ha]; rfl
  | output format =>
    have hname : isFlag format.name = false := by cases format <;> decide
    rw [hvalue hname ha]
    rfl
  | json => rw [List.mem_singleton.mp ha]; rfl
  | noColor => rw [List.mem_singleton.mp ha]; rfl
  | plain word h =>
    obtain rfl := List.mem_singleton.mp ha
    exact absurd hr h

theorem separator_not_mem_args (p : Piece) : "--" ∉ p.args := by
  intro h
  have hf := flag?_of_mem_args h (by decide)
  cases p <;> exact absurd hf (by simp [Piece.flag?])

theorem separate_argvOf (ps : List Piece) (ending : Option (List String)) :
    separate (argvOf ps ending) = ⟨ps.flatMap Piece.args, ending.getD []⟩ := by
  have hfront : "--" ∉ ps.flatMap Piece.args := by
    intro h
    obtain ⟨p, -, hm⟩ := List.mem_flatMap.mp h
    exact separator_not_mem_args p hm
  cases ending with
  | none =>
    rw [argvOf, closing, List.append_nil]
    exact Passes.separate_of_not_mem hfront
  | some tail => exact Passes.separate_append hfront

/-- A flag with a free value, and the value. -/
def pair? : Piece → Option (String × String)
  | .config path _ => some ("--config", path)
  | .level name _ => some ("--log-level", name)
  | _ => none

/-- The pieces that say nothing in this respect. -/
def silent {α : Type} (f : Piece → Option α) (ps : List Piece) : List Piece :=
  ps.filter fun p => (f p).isNone

theorem silent_cons_some {α : Type} {f : Piece → Option α} {p : Piece} {a : α}
    (h : f p = some a) (ps : List Piece) : silent f (p :: ps) = silent f ps := by
  rw [silent, List.filter_cons_of_neg (by simp [h])]
  rfl

theorem silent_cons_none {α : Type} {f : Piece → Option α} {p : Piece} (h : f p = none)
    (ps : List Piece) : silent f (p :: ps) = p :: silent f ps := by
  rw [silent, List.filter_cons_of_pos (by simp [h])]
  rfl

theorem extract_taken {p : Piece} {pair : String × String} (h : pair? p = some pair)
    (args : List String) :
    extract Invocation.valueFlags (p.args ++ args) =
      (extract Invocation.valueFlags args).map (pair :: ·) := by
  cases p with
  | config path hp => obtain rfl := Option.some.inj h; exact Passes.extract_pair (by decide) hp
  | level name hn => obtain rfl := Option.some.inj h; exact Passes.extract_pair (by decide) hn
  | _ => cases h

theorem extract_left {p : Piece} (h : pair? p = none) (args : List String) :
    extract Invocation.valueFlags (p.args ++ args) =
      ⟨(extract Invocation.valueFlags args).result,
        p.args ++ (extract Invocation.valueFlags args).rest⟩ := by
  have hreserved : ∀ flag ∈ Invocation.valueFlags, flag ∈ reserved := by decide
  refine Passes.extract_append (fun arg ha hv => ?_) args
  have hf := flag?_of_mem_args ha (hreserved arg hv)
  -- Neither value flag belongs to a piece that has no pair.
  cases p with
  | config path hp => cases h
  | level name hn => cases h
  | plain word hw => cases hf
  | _ => obtain rfl := Option.some.inj hf; revert hv; decide

theorem extract_pieces (ps : List Piece) :
    extract Invocation.valueFlags (ps.flatMap Piece.args) =
      ⟨.ok (ps.filterMap pair?), (silent pair? ps).flatMap Piece.args⟩ := by
  induction ps with
  | nil => rfl
  | cons p ps ih =>
    rw [List.flatMap_cons]
    cases hp : pair? p with
    | none => rw [extract_left hp, ih, List.filterMap_cons_none hp, silent_cons_none hp]; rfl
    | some pair => rw [extract_taken hp, ih, List.filterMap_cons_some hp, silent_cons_some hp]; rfl

theorem takeOutput_taken {p : Piece} {format : OutputFormat} (h : p.format? = some format)
    (args : List String) :
    takeOutput (p.args ++ args) = (takeOutput args).map (·.or (some format)) := by
  cases p with
  | output format' =>
    obtain rfl := Option.some.inj h
    exact Passes.takeOutput_output format' args
  | json =>
    obtain rfl := Option.some.inj h
    exact Passes.takeOutput_json args
  | _ => cases h

theorem noFormatFlag_args {p : Piece} (h : p.format? = none) : Passes.NoFormatFlag p.args := by
  have hkey : ∀ flag, p.flag? = some flag → flag ≠ "--output" ∧ flag ≠ "--json" := by
    intro flag hf
    cases p with
    | output format => cases h
    | json => cases h
    | plain word hw => cases hf
    | _ => obtain rfl := Option.some.inj hf; decide
  exact ⟨fun hm => (hkey _ (flag?_of_mem_args hm (by decide))).1 rfl,
    fun hm => (hkey _ (flag?_of_mem_args hm (by decide))).2 rfl⟩

theorem takeOutput_pieces (ps : List Piece) :
    takeOutput (ps.flatMap Piece.args) =
      ⟨.ok (lastOf Piece.format? ps), (silent Piece.format? ps).flatMap Piece.args⟩ := by
  induction ps with
  | nil => rfl
  | cons p ps ih =>
    rw [List.flatMap_cons, lastOf_cons]
    cases hp : p.format? with
    | none =>
      rw [Passes.takeOutput_append (noFormatFlag_args hp), ih, Option.or_none, silent_cons_none hp]
      rfl
    | some format => rw [takeOutput_taken hp, ih, silent_cons_some hp]; rfl

theorem args_of_isNoColor {p : Piece} (h : p.isNoColor = true) : p.args = ["--no-color"] := by
  cases p with
  | noColor => rfl
  | _ => cases h

theorem noColor_mem_args_iff {p : Piece} : "--no-color" ∈ p.args ↔ p.isNoColor = true := by
  constructor
  · intro h
    have hf := flag?_of_mem_args h (by decide)
    cases p with
    | noColor => rfl
    | plain word hw => cases hf
    | _ => exact absurd hf (by simp [Piece.flag?])
  · intro h
    rw [args_of_isNoColor h]
    exact List.mem_singleton_self _

/-- The colour switch is found where it stands, and the other pieces stay whole. -/
theorem takeSwitch_pieces (ps : List Piece) :
    takeSwitch "--no-color" (ps.flatMap Piece.args) =
      (ps.any Piece.isNoColor,
        (ps.filter fun p => !p.isNoColor).flatMap Piece.args) := by
  induction ps with
  | nil => rfl
  | cons p ps ih =>
    obtain ⟨hfound, hleft⟩ := Prod.mk.inj ih
    rw [takeSwitch, List.flatMap_cons, List.filter_append, List.any_cons, hleft]
    cases hp : p.isNoColor with
    | true =>
      have hdrop : (p :: ps).filter (fun p => !p.isNoColor) = ps.filter fun p => !p.isNoColor :=
        List.filter_cons_of_neg (by simp [hp])
      rw [args_of_isNoColor hp, hdrop]
      rfl
    | false =>
      have hnot : "--no-color" ∉ p.args := fun hm => by
        rw [noColor_mem_args_iff.mp hm] at hp
        cases hp
      have hkeep : p.args.filter (· ≠ "--no-color") = p.args :=
        List.filter_eq_self.mpr fun arg ha => decide_eq_true fun he => hnot (he ▸ ha)
      rw [hkeep, List.filter_cons_of_pos (by simp [hp]), List.flatMap_cons, Bool.false_or,
        ← hfound]
      simp [hnot]

theorem plain_of_three_passes (ps : List Piece) :
    ((silent Piece.format? (silent pair? ps)).filter fun p => !p.isNoColor) =
      ps.filter fun p => p.word?.isSome := by
  rw [silent, silent, List.filter_filter, List.filter_filter]
  refine List.filter_congr fun p _ => ?_
  cases p <;> rfl

theorem args_of_word? {p : Piece} {word : String} (h : p.word? = some word) :
    p.args = [word] := by
  cases p with
  | plain word' hw => obtain rfl := Option.some.inj h; rfl
  | _ => cases h

theorem args_of_plain (ps : List Piece) :
    (ps.filter fun p => p.word?.isSome).flatMap Piece.args = ps.filterMap Piece.word? := by
  induction ps with
  | nil => rfl
  | cons p ps ih =>
    cases hp : p.word? with
    | none => rw [List.filter_cons_of_neg (by simp [hp]), List.filterMap_cons_none hp, ih]
    | some word =>
      rw [List.filter_cons_of_pos (by simp [hp]), List.flatMap_cons, args_of_word? hp,
        List.filterMap_cons_some hp, ih]
      rfl

/-- What all three passes leave are the plain words. -/
theorem words_of_pieces (ps : List Piece) :
    ((silent Piece.format? (silent pair? ps)).filter fun p => !p.isNoColor).flatMap Piece.args =
      ps.filterMap Piece.word? := by
  rw [plain_of_three_passes, args_of_plain]

theorem filterMap_silent {α β : Type} {f : Piece → Option α} {g : Piece → Option β}
    (h : ∀ p a, f p = some a → g p = none) (ps : List Piece) :
    (silent f ps).filterMap g = ps.filterMap g := by
  induction ps with
  | nil => rfl
  | cons p ps ih =>
    cases hp : f p with
    | none => rw [silent_cons_none hp, List.filterMap_cons, List.filterMap_cons, ih]
    | some a => rw [silent_cons_some hp, List.filterMap_cons_none (h p a hp), ih]

theorem any_silent {α : Type} {f : Piece → Option α} {test : Piece → Bool}
    (h : ∀ p a, f p = some a → test p = false) (ps : List Piece) :
    (silent f ps).any test = ps.any test := by
  induction ps with
  | nil => rfl
  | cons p ps ih =>
    cases hp : f p with
    | none => rw [silent_cons_none hp, List.any_cons, List.any_cons, ih]
    | some a => rw [silent_cons_some hp, List.any_cons, h p a hp, Bool.false_or, ih]

/-- The last value of a flag is that of its last group. -/
theorem valueOf?_pieces {name : String} {value? : Piece → Option String}
    (h : ∀ p, value? p = (pair? p).bind fun pair => if name = pair.1 then some pair.2 else none)
    (ps : List Piece) : valueOf? name (ps.filterMap pair?) = lastOf value? ps := by
  induction ps with
  | nil => rfl
  | cons p ps ih =>
    rw [lastOf_cons, h p]
    cases hp : pair? p with
    | none => rw [List.filterMap_cons_none hp, ih, Option.bind_none, Option.or_none]
    | some pair => rw [List.filterMap_cons_some hp, Passes.valueOf?_cons, ih, Option.bind_some]

/-- The flags of a run as the pieces choose them. -/
theorem ofArgs_argvOf (ps : List Piece) (ending : Option (List String)) :
    Invocation.ofArgs (argvOf ps ending) =
      .ok ⟨(choices ps).config?, (choices ps).level?, (choices ps).format?, (choices ps).noColor,
        (choices ps).words, ending.getD []⟩ := by
  have hconfig : valueOf? "--config" (ps.filterMap pair?) = lastOf Piece.config? ps :=
    valueOf?_pieces (fun p => by cases p <;> rfl) ps
  have hlevel : valueOf? "--log-level" (ps.filterMap pair?) = lastOf Piece.level? ps :=
    valueOf?_pieces (fun p => by cases p <;> rfl) ps
  -- The later passes run over what the earlier ones left, which holds all of their own groups.
  have hformat : lastOf Piece.format? (silent pair? ps) = lastOf Piece.format? ps := by
    rw [lastOf, lastOf, filterMap_silent]
    intro p pair hp
    cases p with
    | config path h => rfl
    | level name h => rfl
    | _ => cases hp
  have hcolor : (silent Piece.format? (silent pair? ps)).any Piece.isNoColor =
      ps.any Piece.isNoColor := by
    rw [any_silent, any_silent]
    · intro p pair hp
      cases p with
      | noColor => cases hp
      | _ => rfl
    · intro p format hp
      cases p with
      | noColor => cases hp
      | _ => rfl
  rw [Invocation.ofArgs, separate_argvOf]
  simp only [extract_pieces, takeOutput_pieces, takeSwitch_pieces, hconfig, hlevel,
    hformat, hcolor, words_of_pieces]
  rfl

/-- The same plain words in the same order and, for each setting, the same groups in the same
order. How words and groups of different settings are interleaved is left open. -/
def Rearranged (ps qs : List Piece) : Prop :=
  ∀ setting? : Option Setting,
    ps.filter (·.setting? = setting?) = qs.filter (·.setting? = setting?)

/-- One group may be moved past pieces that are not of its setting. -/
theorem rearranged_move (before behind : List Piece) {g : Piece} {passed : List Piece}
    (h : ∀ p ∈ passed, p.setting? ≠ g.setting?) :
    Rearranged (before ++ g :: (passed ++ behind)) (before ++ (passed ++ g :: behind)) := by
  intro setting?
  simp only [List.filter_append, List.filter_cons, decide_eq_true_eq]
  by_cases hs : g.setting? = setting?
  · have hnone : passed.filter (·.setting? = setting?) = [] :=
      List.filter_eq_nil_iff.mpr fun p hp => by simpa [← hs] using h p hp
    rw [if_pos hs, if_pos hs, hnone, List.nil_append, List.nil_append]
  · rw [if_neg hs, if_neg hs]

/-- Only pieces of this setting say anything in this respect. -/
def OnlyOf {α : Type} (setting? : Option Setting) (f : Piece → Option α) : Prop :=
  ∀ p a, f p = some a → p.setting? = setting?

theorem onlyOf_word? : OnlyOf none Piece.word? := by
  intro p word hp
  cases p with
  | plain word' h => rfl
  | _ => cases hp

theorem onlyOf_config? : OnlyOf (some .config) Piece.config? := by
  intro p path hp
  cases p with
  | config path' h => rfl
  | _ => cases hp

theorem onlyOf_level? : OnlyOf (some .level) Piece.level? := by
  intro p name hp
  cases p with
  | level name' h => rfl
  | _ => cases hp

theorem onlyOf_format? : OnlyOf (some .format) Piece.format? := by
  intro p format hp
  cases p with
  | output format' => rfl
  | json => rfl
  | _ => cases hp

theorem filterMap_setting {α : Type} {f : Piece → Option α} {setting? : Option Setting}
    (h : OnlyOf setting? f) (ps : List Piece) :
    (ps.filter (·.setting? = setting?)).filterMap f = ps.filterMap f := by
  induction ps with
  | nil => rfl
  | cons p ps ih =>
    by_cases hs : p.setting? = setting?
    · rw [List.filter_cons_of_pos (by simp [hs]), List.filterMap_cons, List.filterMap_cons, ih]
    · have hf : f p = none := by
        cases hp : f p with
        | none => rfl
        | some a => exact absurd (h p a hp) hs
      rw [List.filter_cons_of_neg (by simp [hs]), List.filterMap_cons_none hf, ih]

theorem filterMap_of_rearranged {α : Type} {f : Piece → Option α} {setting? : Option Setting}
    {ps qs : List Piece} (hr : Rearranged ps qs) (h : OnlyOf setting? f) :
    ps.filterMap f = qs.filterMap f := by
  rw [← filterMap_setting h ps, ← filterMap_setting h qs, hr setting?]

theorem any_isNoColor (ps : List Piece) :
    ps.any Piece.isNoColor = !(ps.filter (·.setting? = some .color)).isEmpty := by
  induction ps with
  | nil => rfl
  | cons p ps ih =>
    rw [List.any_cons, ih]
    cases p <;> rfl

/-- Moving groups among the words and among the groups of other settings changes no choice. -/
theorem choices_of_rearranged {ps qs : List Piece} (hr : Rearranged ps qs) :
    choices ps = choices qs := by
  rw [choices, choices, Choices.mk.injEq]
  refine ⟨filterMap_of_rearranged hr onlyOf_word?, ?_, ?_, ?_, ?_⟩
  · rw [lastOf, lastOf, filterMap_of_rearranged hr onlyOf_config?]
  · rw [lastOf, lastOf, filterMap_of_rearranged hr onlyOf_level?]
  · rw [lastOf, lastOf, filterMap_of_rearranged hr onlyOf_format?]
  · rw [any_isNoColor, any_isNoColor, hr]

theorem run_of_choices_eq (w : World) (s : Session) {ps qs : List Piece}
    {ending : Option (List String)} (hp : argvOf ps ending ≠ []) (hq : argvOf qs ending ≠ [])
    (h : choices ps = choices qs) :
    run w s (argvOf ps ending) = run w s (argvOf qs ending) := by
  have hplan : plan w s (argvOf ps ending) = plan w s (argvOf qs ending) := by
    rw [plan, plan, List.isEmpty_eq_false_iff.mpr hp, List.isEmpty_eq_false_iff.mpr hq,
      ofArgs_argvOf, ofArgs_argvOf, h]
  rw [run, run, hplan]

/-- A run depends on the pieces before the separator only through their choices; so it does not
depend on where the groups stand. -/
theorem run_of_pieces (w : World) (s : Session) (ps qs : List Piece)
    (ending : Option (List String)) (hp : argvOf ps ending ≠ []) (hq : argvOf qs ending ≠ []) :
    (choices ps = choices qs →
      run w s (argvOf ps ending) = run w s (argvOf qs ending)) ∧
    (Rearranged ps qs → run w s (argvOf ps ending) = run w s (argvOf qs ending)) := by
  refine ⟨run_of_choices_eq w s hp hq, fun hr => ?_⟩
  exact run_of_choices_eq w s hp hq (choices_of_rearranged hr)

/-- A level in front of the words moved behind them, and a format that a later one overrides; the
text behind the separator looks like a flag. -/
theorem run_of_pieces_moved :
    (argvOf [.level "debug" rfl, .plain "parse" (by decide), .json] (some ["--json"]) ≠ [] ∧
      argvOf [.plain "parse" (by decide), .json, .level "debug" rfl] (some ["--json"]) ≠ [] ∧
      run .empty .fresh ["--log-level", "debug", "parse", "--json", "--", "--json"] =
        run .empty .fresh ["parse", "--json", "--log-level", "debug", "--", "--json"]) ∧
    (argvOf [.output .text, .plain "list" (by decide), .json] none ≠ [] ∧
      argvOf [.json, .plain "list" (by decide)] none ≠ [] ∧
      choices [.output .text, .plain "list" (by decide), .json] =
        choices [.json, .plain "list" (by decide)] ∧
      run .empty .fresh ["--output", "text", "list", "--json"] =
        run .empty .fresh ["--json", "list"]) := by
  have hpassed : ∀ p ∈ [Piece.plain "parse" (by decide), .json],
      p.setting? ≠ (Piece.level "debug" rfl).setting? := by decide
  have hmove : Rearranged [.level "debug" rfl, .plain "parse" (by decide), .json]
      [.plain "parse" (by decide), .json, .level "debug" rfl] := rearranged_move [] [] hpassed
  refine ⟨⟨by decide, by decide, ?_⟩, by decide, by decide, rfl, ?_⟩
  · exact (run_of_pieces .empty .fresh _ _ (some ["--json"]) (by decide) (by decide)).2 hmove
  · exact (run_of_pieces .empty .fresh [.output .text, .plain "list" (by decide), .json]
      [.json, .plain "list" (by decide)] none (by decide) (by decide)).1 rfl

end DeviceShell.Proofs.FlagOrder
