import DeviceShell.Proofs.FlagValues
import Mathlib.Order.Bounds.Defs

/-!
# What a pass takes out, and how far it gets

A pass goes over its list from the left. It takes out flags with the argument behind them and switches
alone, and stops at the first flag that has no proper value. `Reached` says so by places of the list: in
front of a place everything of the pass is taken out, nothing there offends, and from the place on the
list is as it was. A pass that succeeds has reached the end, a pass that fails the first offence. One
step lemma for each thing that a pass may meet carries both passes through their recursion.

`extract_exact` is about the pass for the flags with a free value: when it succeeds, what it leaves, and
which value it finds for a flag.
-/
namespace DeviceShell.Proofs.TakenOut

open Cli Cli.Args
open FlagValues (Succeeds)
open LastFlag (FlagNames lastValue?)

/-- An argument goes if it is a flag or a switch, or stands right behind a flag. -/
def Goes (flags switches : List String) (before? : Option String) (arg : String) : Prop :=
  arg ∈ flags ∨ arg ∈ switches ∨ ∃ flag ∈ flags, before? = some flag

instance (flags switches : List String) (before? : Option String) (arg : String) :
    Decidable (Goes flags switches before? arg) :=
  inferInstanceAs (Decidable (_ ∨ _ ∨ _))

/-- The arguments that stay where another one may stand in front of them all. -/
def sparedBehind (flags switches : List String) (before? : Option String) (args : List String) :
    List String :=
  ((args.zip (before? :: args.map some)).filter fun (arg, before?) =>
    ¬ Goes flags switches before? arg).map Prod.fst

/-- The arguments that are neither flags nor switches and do not stand right behind a flag. -/
def spared (flags switches args : List String) : List String :=
  sparedBehind flags switches none args

section Spared

variable {flags switches args : List String} {before? : Option String} {arg : String}

theorem sparedBehind_cons_goes (h : Goes flags switches before? arg) :
    sparedBehind flags switches before? (arg :: args) =
      sparedBehind flags switches (some arg) args := by
  simp [sparedBehind, h]

theorem sparedBehind_cons_stays (h : ¬ Goes flags switches before? arg) :
    sparedBehind flags switches before? (arg :: args) =
      arg :: sparedBehind flags switches (some arg) args := by
  simp [sparedBehind, h]

/-- What is no flag changes nothing for the arguments behind it. -/
theorem sparedBehind_of_not_mem (h : arg ∉ flags) :
    sparedBehind flags switches (some arg) args = spared flags switches args := by
  have hsame : ∀ next, Goes flags switches (some arg) next ↔ Goes flags switches none next := by
    intro next
    simp [Goes, h]
  cases args with
  | nil => rfl
  | cons next args =>
    rw [spared]
    by_cases hgoes : Goes flags switches none next
    · rw [sparedBehind_cons_goes hgoes, sparedBehind_cons_goes ((hsame next).mpr hgoes)]
    · rw [sparedBehind_cons_stays hgoes, sparedBehind_cons_stays (mt (hsame next).mp hgoes)]

theorem spared_keep (hf : arg ∉ flags) (hs : arg ∉ switches) :
    spared flags switches (arg :: args) = arg :: spared flags switches args := by
  have hstays : ¬ Goes flags switches none arg := by simp [Goes, hf, hs]
  rw [spared, sparedBehind_cons_stays hstays, sparedBehind_of_not_mem hf]

theorem spared_switch (hf : arg ∉ flags) (hs : arg ∈ switches) :
    spared flags switches (arg :: args) = spared flags switches args := by
  have hgoes : Goes flags switches none arg := .inr (.inl hs)
  rw [spared, sparedBehind_cons_goes hgoes, sparedBehind_of_not_mem hf]

theorem spared_pair {flag value : String} (hf : flag ∈ flags) (hv : value ∉ flags) :
    spared flags switches (flag :: value :: args) = spared flags switches args := by
  have hflag : Goes flags switches none flag := .inl hf
  have hvalue : Goes flags switches (some flag) value := .inr (.inr ⟨flag, hf, rfl⟩)
  rw [spared, sparedBehind_cons_goes hflag, sparedBehind_cons_goes hvalue,
    sparedBehind_of_not_mem hv]

theorem not_mem_spared (h : arg ∈ flags) : arg ∉ spared flags switches args := by
  intro hm
  obtain ⟨⟨stays, before?⟩, hpair, rfl⟩ := List.mem_map.mp hm
  obtain ⟨-, hstays⟩ := List.mem_filter.mp hpair
  exact of_decide_eq_true hstays (.inl h)

end Spared

/-- An argument stands at this place that is wrong in front of what comes next. -/
def OffendsAt (wrong : String → Option String → Prop) (args : List String) (i : Nat) : Prop :=
  ∃ arg, args[i]? = some arg ∧ wrong arg args[i + 1]?

/-- A flag with no value behind it: with nothing, or with what looks like a flag. -/
def Unvalued (names : List String) (arg : String) (next? : Option String) : Prop :=
  arg ∈ names ∧ ∀ value, next? = some value → isFlag value = true

/-- A format flag with no format behind it: with nothing, with an empty text, or with any other text
that names none. -/
def Unformatted (arg : String) (next? : Option String) : Prop :=
  arg = "--output" ∧ ∀ value, next? = some value → value ≠ "text" ∧ value ≠ "json"

/-- A pass has gone as far as this place: to the end of the list, or to an argument that offends. -/
structure Reached {α : Type} (flags switches : List String)
    (wrong : String → Option String → Prop) (args : List String) (p : Pass α) (i : Nat) :
    Prop where
  rest : p.rest = spared flags switches (args.take i) ++ args.drop i
  inOrder : ∀ j < i, ¬ OffendsAt wrong args j
  ended : Succeeds p ∧ i = args.length ∨ ¬ Succeeds p ∧ OffendsAt wrong args i

section Reached

variable {α β : Type} {flags switches args : List String} {arg : String}
  {wrong : String → Option String → Prop} {p : Pass α} {i : Nat}

theorem reached_nil (a : α) : Reached flags switches wrong [] ⟨.ok a, []⟩ 0 := by
  constructor
  · rfl
  · intro j hj
    omega
  · exact .inl ⟨⟨a, rfl⟩, rfl⟩

theorem reached_stop (h : wrong arg args[0]?) (e : UsageError) :
    Reached flags switches wrong (arg :: args) (stop e (arg :: args) : Pass α) 0 := by
  constructor
  · rfl
  · intro j hj
    omega
  · exact .inr ⟨FlagValues.not_succeeds_stop _ _, arg, rfl, h⟩

theorem inOrder_cons (harg : ¬ wrong arg args[0]?) (h : ∀ j < i, ¬ OffendsAt wrong args j) :
    ∀ j < i + 1, ¬ OffendsAt wrong (arg :: args) j := by
  intro j hj
  cases j with
  | zero =>
    intro ho
    obtain ⟨first, hfirst, hwrong⟩ := ho
    obtain rfl := Option.some.inj hfirst
    exact harg hwrong
  | succ j => exact h j (Nat.lt_of_succ_lt_succ hj)

/-- One argument in front moves the place where a pass ends by one. -/
theorem ended_cons {q : Pass β} (hq : Succeeds q ↔ Succeeds p)
    (h : Succeeds p ∧ i = args.length ∨ ¬ Succeeds p ∧ OffendsAt wrong args i) :
    Succeeds q ∧ i + 1 = (arg :: args).length ∨
      ¬ Succeeds q ∧ OffendsAt wrong (arg :: args) (i + 1) := by
  rw [hq, List.length_cons, Nat.add_right_cancel_iff]
  exact h

theorem Reached.keep (hf : arg ∉ flags) (hs : arg ∉ switches) (hw : ¬ wrong arg args[0]?)
    (h : Reached flags switches wrong args p i) :
    Reached flags switches wrong (arg :: args) (p.keep arg) (i + 1) := by
  constructor
  · rw [Pass.rest_keep, h.rest, List.take_succ_cons, List.drop_succ_cons, spared_keep hf hs,
      List.cons_append]
  · exact inOrder_cons hw h.inOrder
  · exact ended_cons Iff.rfl h.ended

theorem Reached.switch (f : α → β) (hf : arg ∉ flags) (hs : arg ∈ switches)
    (hw : ¬ wrong arg args[0]?) (h : Reached flags switches wrong args p i) :
    Reached flags switches wrong (arg :: args) (p.map f) (i + 1) := by
  constructor
  · rw [Pass.rest_map, h.rest, List.take_succ_cons, List.drop_succ_cons, spared_switch hf hs]
  · exact inOrder_cons hw h.inOrder
  · exact ended_cons FlagValues.succeeds_map h.ended

theorem Reached.pair {flag value : String} (f : α → β) (hf : flag ∈ flags) (hv : value ∉ flags)
    (hflag : ¬ wrong flag (some value)) (hvalue : ¬ wrong value args[0]?)
    (h : Reached flags switches wrong args p i) :
    Reached flags switches wrong (flag :: value :: args) (p.map f) (i + 2) := by
  constructor
  · rw [Pass.rest_map, h.rest, List.take_succ_cons, List.take_succ_cons, List.drop_succ_cons,
      List.drop_succ_cons, spared_pair hf hv]
  · exact inOrder_cons hflag (inOrder_cons hvalue h.inOrder)
  · exact ended_cons Iff.rfl (ended_cons FlagValues.succeeds_map h.ended)

theorem Reached.succeeds_iff (h : Reached flags switches wrong args p i) :
    Succeeds p ↔ ∀ j, ¬ OffendsAt wrong args j := by
  rcases h.ended with ⟨hok, hi⟩ | ⟨herr, ho⟩
  · refine iff_of_true hok fun j ho => ?_
    obtain ⟨arg, harg, hwrong⟩ := ho
    obtain ⟨hj, -⟩ := List.getElem?_eq_some_iff.mp harg
    exact h.inOrder j (hi ▸ hj) ⟨arg, harg, hwrong⟩
  · exact iff_of_false herr fun hnone => hnone i ho

/-- A pass that succeeds has gone through the whole list. -/
theorem Reached.rest_of_succeeds (h : Reached flags switches wrong args p i) (hp : Succeeds p) :
    p.rest = spared flags switches args := by
  rcases h.ended with ⟨-, hi⟩ | ⟨herr, -⟩
  · rw [h.rest, hi, List.take_length, List.drop_length, List.append_nil]
  · exact absurd hp herr

/-- A pass that fails has stopped at the first offence. -/
theorem Reached.isLeast (h : Reached flags switches wrong args p i) (hp : ¬ Succeeds p) :
    IsLeast {j | OffendsAt wrong args j} i := by
  rcases h.ended with ⟨hok, -⟩ | ⟨-, ho⟩
  · exact absurd hok hp
  · refine ⟨ho, fun j hj => ?_⟩
    apply Nat.le_of_not_lt
    intro hlt
    exact h.inOrder j hlt hj

end Reached

theorem exists_reached_extract {names : List String} (hnames : FlagNames names)
    (args : List String) :
    ∃ i, Reached names [] (Unvalued names) args (extract names args) i := by
  fun_induction extract names args with
  | case1 => exact ⟨0, reached_nil _⟩
  | case2 arg harg =>
    refine ⟨0, reached_stop ⟨harg, fun next hnext => ?_⟩ _⟩
    cases hnext
  | case3 arg harg value rest hv =>
    refine ⟨0, reached_stop ⟨harg, fun next hnext => ?_⟩ _⟩
    obtain rfl := Option.some.inj hnext
    exact hv
  | case4 arg harg value rest hv ih =>
    obtain ⟨i, hi⟩ := ih
    have hvalue : value ∉ names := fun hm => hv (hnames value hm)
    refine ⟨i + 2, hi.pair _ harg hvalue (fun hw => ?_) fun hw => hvalue hw.1⟩
    exact hv (hw.2 value rfl)
  | case5 arg args harg ih =>
    obtain ⟨i, hi⟩ := ih
    exact ⟨i + 1, hi.keep harg List.not_mem_nil fun hw => harg hw.1⟩

theorem ofName?_eq_none_iff {value : String} :
    OutputFormat.ofName? value = none ↔ value ≠ "text" ∧ value ≠ "json" := by
  rw [OutputFormat.ofName?, List.find?_eq_none]
  simp [OutputFormat.all, OutputFormat.name, eq_comm]

theorem exists_reached_takeOutput (args : List String) :
    ∃ i, Reached ["--output"] ["--json"] Unformatted args (takeOutput args) i := by
  fun_induction takeOutput args with
  | case1 => exact ⟨0, reached_nil _⟩
  | case2 =>
    refine ⟨0, reached_stop ⟨rfl, fun next hnext => ?_⟩ _⟩
    cases hnext
  | case3 rest =>
    refine ⟨0, reached_stop ⟨rfl, fun next hnext => ?_⟩ _⟩
    obtain rfl := Option.some.inj hnext
    decide
  | case4 value rest hv hf =>
    refine ⟨0, reached_stop ⟨rfl, fun next hnext => ?_⟩ _⟩
    obtain rfl := Option.some.inj hnext
    exact ofName?_eq_none_iff.mp hf
  | case5 value rest hv format hf ih =>
    obtain ⟨i, hi⟩ := ih
    have hvalue : value ≠ "--output" := LastFlag.ne_of_isFlag (LastFlag.isFlag_of_ofName? hf) rfl
    refine ⟨i + 2, hi.pair _ (List.mem_singleton_self _) (mt List.mem_singleton.mp hvalue)
      (fun hw => ?_) fun hw => hvalue hw.1⟩
    rw [ofName?_eq_none_iff.mpr (hw.2 value rfl)] at hf
    cases hf
  | case6 args ho ih =>
    obtain ⟨i, hi⟩ := ih
    exact ⟨i + 1, hi.switch _ (by decide) (List.mem_singleton_self _) fun hw => ho hw.1⟩
  | case7 arg args ho hj ih =>
    obtain ⟨i, hi⟩ := ih
    exact ⟨i + 1, hi.keep (mt List.mem_singleton.mp ho) (mt List.mem_singleton.mp hj)
      fun hw => ho hw.1⟩

theorem lastValue?_of_not_mem {flag : String} {args : List String} (h : flag ∉ args) :
    lastValue? flag args = none := by
  induction args with
  | nil => rfl
  | cons arg args ih =>
    obtain ⟨hne, hrest⟩ := List.ne_and_not_mem_of_not_mem_cons h
    rw [LastFlag.lastValue?_keep (Ne.symm hne), ih hrest]

/-- The last occurrence of a flag has its value right behind it. -/
theorem lastValue?_of_last {flag value : String} {args : List String} {i : Nat}
    (hflag : args[i]? = some flag) (hvalue : args[i + 1]? = some value)
    (hlast : ∀ j, i < j → args[j]? ≠ some flag) : lastValue? flag args = some value := by
  induction args generalizing i with
  | nil => cases hflag
  | cons arg args ih =>
    cases i with
    | zero =>
      have hnot : flag ∉ args := by
        intro hm
        obtain ⟨j, hj⟩ := List.mem_iff_getElem?.mp hm
        exact hlast (j + 1) (Nat.succ_pos j) hj
      have hhead : args.head? = some value := by rw [List.head?_eq_getElem?]; exact hvalue
      rw [lastValue?, lastValue?_of_not_mem hnot, if_pos (Option.some.inj hflag), hhead]
      rfl
    | succ i =>
      have hlater : lastValue? flag args = some value :=
        ih hflag hvalue fun j hj => hlast (j + 1) (Nat.succ_lt_succ hj)
      rw [lastValue?, hlater, Option.some_or]

/-- The flags that are found are those that occur, in their order. -/
theorem map_fst_of_extract {names args : List String} {pairs : List (String × String)}
    (hnames : FlagNames names) (h : (extract names args).result = .ok pairs) :
    pairs.map Prod.fst = args.filter (· ∈ names) := by
  fun_induction extract names args generalizing pairs with
  | case1 =>
    obtain rfl := Except.ok.inj h
    rfl
  | case2 => cases h
  | case3 => cases h
  | case4 arg harg value rest hv ih =>
    obtain ⟨more, hmore, rfl⟩ := Passes.exists_of_result_map h
    have hvalue : value ∉ names := fun hm => hv (hnames value hm)
    rw [List.map_cons, ih hmore, List.filter_cons_of_pos (by simp [harg]),
      List.filter_cons_of_neg (by simp [hvalue])]
  | case5 arg args harg ih =>
    rw [ih h, List.filter_cons_of_neg (by simp [harg])]

theorem valueOf?_eq_none_iff {name : String} {pairs : List (String × String)} :
    valueOf? name pairs = none ↔ name ∉ pairs.map Prod.fst := by
  rw [valueOf?, List.lookup_eq_none_iff]
  constructor
  · intro h hm
    obtain ⟨pair, hpair, hname⟩ := List.mem_map.mp hm
    have hne := h pair (List.mem_reverse.mpr hpair)
    rw [hname, bne_self_eq_false] at hne
    cases hne
  · intro h pair hpair
    rw [bne_iff_ne]
    rintro rfl
    exact h (List.mem_map_of_mem (List.mem_reverse.mp hpair))

/-- What is left and what is found when the pass for the value flags succeeds. -/
structure Extracted (names args : List String) (pairs : List (String × String))
    (rest : List String) : Prop where
  spares : rest = spared names [] args
  order : rest.Sublist args
  gone : ∀ name ∈ names, name ∉ rest
  again : extract names rest = ⟨.ok [], rest⟩
  value : ∀ name ∈ names, ∀ i value, args[i]? = some name → args[i + 1]? = some value →
    (∀ j, i < j → args[j]? ≠ some name) → valueOf? name pairs = some value
  absent : ∀ name, valueOf? name pairs = none ↔ ¬ (name ∈ names ∧ name ∈ args)

theorem extracted_of_ok {names args : List String} {pairs : List (String × String)}
    (hnames : FlagNames names) (h : (extract names args).result = .ok pairs) :
    Extracted names args pairs (extract names args).rest := by
  obtain ⟨i, hi⟩ := exists_reached_extract hnames args
  have hrest := hi.rest_of_succeeds ⟨pairs, h⟩
  have hgone : ∀ name ∈ names, name ∉ (extract names args).rest := by
    intro name hname
    rw [hrest]
    exact not_mem_spared hname
  constructor
  · exact hrest
  · exact Passes.extract_sublist names args
  · exact hgone
  · have hkept := Passes.extract_append (fun arg hm hname => hgone arg hname hm) []
    rwa [List.append_nil, extract, List.append_nil] at hkept
  · intro name hname i value hflag hvalue hlast
    rw [LastFlag.valueOf?_extract hnames hname h]
    exact lastValue?_of_last hflag hvalue hlast
  · intro name
    rw [valueOf?_eq_none_iff, map_fst_of_extract hnames h, List.mem_filter, decide_eq_true_eq,
      and_comm]

/-- The pass for flags with a free value succeeds exactly when each of them has a value right behind
it. It takes out the flags with these values and nothing else, and finds for a flag the value behind
its last occurrence. -/
theorem extract_exact {names : List String} (hnames : FlagNames names) (args : List String) :
    ((∃ pairs, (extract names args).result = .ok pairs) ↔
      ∀ i name, args[i]? = some name → name ∈ names →
        ∃ value, args[i + 1]? = some value ∧ isFlag value = false) ∧
    ∀ pairs, (extract names args).result = .ok pairs →
      Extracted names args pairs (extract names args).rest := by
  obtain ⟨i, hi⟩ := exists_reached_extract hnames args
  refine ⟨hi.succeeds_iff.trans ?_, fun pairs h => extracted_of_ok hnames h⟩
  constructor
  · intro hnone j name hname hmem
    cases hnext : args[j + 1]? with
    | none => exact absurd ⟨name, hname, hmem, by simp [hnext]⟩ (hnone j)
    | some value =>
      refine ⟨value, rfl, ?_⟩
      rw [Bool.eq_false_iff]
      intro hflag
      exact hnone j ⟨name, hname, hmem, by simp [hnext, hflag]⟩
  · intro hvalued j ho
    obtain ⟨name, hname, hmem, hwrong⟩ := ho
    obtain ⟨value, hnext, hflag⟩ := hvalued j name hname hmem
    rw [hwrong value hnext] at hflag
    cases hflag

/-- Two flags side by side with one of them given twice; a value may be empty or a single hyphen. -/
theorem extract_exact_twice :
    FlagNames ["--config", "--log-level"] ∧
    (extract ["--config", "--log-level"]
        ["--config", "-", "--log-level", "", "list", "--json", "--config", "b"]).result =
      .ok [("--config", "-"), ("--log-level", ""), ("--config", "b")] ∧
    Extracted ["--config", "--log-level"]
      ["--config", "-", "--log-level", "", "list", "--json", "--config", "b"]
      [("--config", "-"), ("--log-level", ""), ("--config", "b")] ["list", "--json"] := by
  have h : (extract ["--config", "--log-level"]
      ["--config", "-", "--log-level", "", "list", "--json", "--config", "b"]).result =
        .ok [("--config", "-"), ("--log-level", ""), ("--config", "b")] := rfl
  exact ⟨LastFlag.flagNames_valueFlags, h,
    (extract_exact LastFlag.flagNames_valueFlags _).2 _ h⟩

end DeviceShell.Proofs.TakenOut
