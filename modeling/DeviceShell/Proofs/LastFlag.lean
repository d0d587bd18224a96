import DeviceShell.Proofs.Passes

/-!
# The last flag counts

What the passes find is read here off the argument list itself, without following any pass. A value
flag says what stands right behind its last occurrence. A format flag is read where the value flags
and their values have been left out, because `--output` takes its value from what is left there. A
switch that is no value of another flag is on exactly when it occurs.
-/
namespace DeviceShell.Proofs.LastFlag

open Cli Cli.Args

/-- The argument behind the last occurrence of a flag. -/
def lastValue? (flag : String) : List String → Option String
  | [] => none
  | arg :: args => (lastValue? flag args).or (if arg = flag then args.head? else none)

/-- The format that an argument asks for if it is a format flag, with the arguments behind it. -/
def flagFormat? (arg : String) (behind : List String) : Option OutputFormat :=
  if arg = "--json" then some .json
  else if arg = "--output" then behind.head?.bind OutputFormat.ofName?
  else none

/-- The format that the last format flag asks for. -/
def lastFormat? : List String → Option OutputFormat
  | [] => none
  | arg :: args => (lastFormat? args).or (flagFormat? arg args)

/-- The arguments that are neither one of the flags nor its value. -/
def withoutPairs (flags : List String) : List String → List String
  | [] => []
  | [arg] => if arg ∈ flags then [] else [arg]
  | arg :: value :: args =>
    if arg ∈ flags then withoutPairs flags args else arg :: withoutPairs flags (value :: args)

theorem withoutPairs_pair {flags : List String} {flag : String} (h : flag ∈ flags)
    (value : String) (args : List String) :
    withoutPairs flags (flag :: value :: args) = withoutPairs flags args := by
  rw [withoutPairs, if_pos h]

theorem withoutPairs_keep {flags : List String} {arg : String} (h : arg ∉ flags)
    (args : List String) : withoutPairs flags (arg :: args) = arg :: withoutPairs flags args := by
  cases args with
  | nil => simp only [withoutPairs, h, ↓reduceIte]
  | cons value args => rw [withoutPairs, if_neg h]

theorem lastValue?_keep {flag arg : String} (h : arg ≠ flag) (args : List String) :
    lastValue? flag (arg :: args) = lastValue? flag args := by
  rw [lastValue?, if_neg h, Option.or_none]

theorem lastValue?_pair {flag arg value : String} (h : value ≠ flag) (args : List String) :
    lastValue? flag (arg :: value :: args) =
      (lastValue? flag args).or (if arg = flag then some value else none) := by
  rw [lastValue?, lastValue?_keep h, List.head?_cons]

/-- Flags with a value look like flags. -/
def FlagNames (names : List String) : Prop := ∀ name ∈ names, isFlag name = true

theorem flagNames_valueFlags : FlagNames Invocation.valueFlags := by
  rw [FlagNames]
  decide

theorem ne_of_isFlag {arg flag : String} (ha : isFlag arg = false) (hf : isFlag flag = true) :
    arg ≠ flag := by
  rintro rfl
  rw [ha] at hf
  cases hf

/-- A pass that succeeds leaves out the flags with their values and nothing else. -/
theorem extract_rest {names args : List String} {pairs : List (String × String)}
    (h : (extract names args).result = .ok pairs) :
    (extract names args).rest = withoutPairs names args := by
  fun_induction extract names args generalizing pairs with
  | case1 => rfl
  | case2 => cases h
  | case3 => cases h
  | case4 arg harg value rest hv ih =>
    obtain ⟨more, hmore, -⟩ := Passes.exists_of_result_map h
    rw [Pass.rest_map, ih hmore, withoutPairs_pair harg]
  | case5 arg args harg ih =>
    rw [Pass.rest_keep, ih h, withoutPairs_keep harg]

/-- The value that counts is the one behind the last occurrence. -/
theorem valueOf?_extract {names args : List String} {pairs : List (String × String)}
    (hnames : FlagNames names) {name : String} (hname : name ∈ names)
    (h : (extract names args).result = .ok pairs) :
    valueOf? name pairs = lastValue? name args := by
  fun_induction extract names args generalizing pairs with
  | case1 =>
    obtain rfl := Except.ok.inj h
    rfl
  | case2 => cases h
  | case3 => cases h
  | case4 arg harg value rest hv ih =>
    obtain ⟨more, hmore, rfl⟩ := Passes.exists_of_result_map h
    have hvalue : value ≠ name :=
      ne_of_isFlag (Bool.eq_false_iff.mpr hv) (hnames name hname)
    rw [Passes.valueOf?_cons, ih hmore, lastValue?_pair hvalue]
    simp only [eq_comm]
  | case5 arg args harg ih =>
    have hne : arg ≠ name := fun he => harg (he ▸ hname)
    rw [ih h, lastValue?_keep hne]

/-- What looks like a flag and is none of these is still there. -/
theorem mem_withoutPairs {names args : List String} {pairs : List (String × String)} {flag : String}
    (hflag : isFlag flag = true) (hnot : flag ∉ names)
    (h : (extract names args).result = .ok pairs) :
    flag ∈ (extract names args).rest ↔ flag ∈ args := by
  fun_induction extract names args generalizing pairs with
  | case1 => exact Iff.rfl
  | case2 => cases h
  | case3 => cases h
  | case4 arg harg value rest hv ih =>
    obtain ⟨more, hmore, -⟩ := Passes.exists_of_result_map h
    have hname : flag ≠ arg := fun he => hnot (he ▸ harg)
    have hvalue : flag ≠ value := (ne_of_isFlag (Bool.eq_false_iff.mpr hv) hflag).symm
    rw [Pass.rest_map, ih hmore, List.mem_cons, List.mem_cons]
    simp [hname, hvalue]
  | case5 arg args harg ih =>
    rw [Pass.rest_keep, List.mem_cons, List.mem_cons, ih h]

theorem ofName?_eq_some_iff {value : String} {format : OutputFormat} :
    OutputFormat.ofName? value = some format ↔ value = format.name := by
  constructor
  · intro h
    have hfound := List.find?_some h
    exact (of_decide_eq_true hfound).symm
  · rintro rfl
    cases format <;> rfl

/-- No format is named like a flag. -/
theorem isFlag_of_ofName? {value : String} {format : OutputFormat}
    (h : OutputFormat.ofName? value = some format) : isFlag value = false := by
  rw [ofName?_eq_some_iff.mp h]
  cases format <;> rfl

theorem flagFormat?_of_ne {arg : String} (hj : arg ≠ "--json") (ho : arg ≠ "--output")
    (behind : List String) : flagFormat? arg behind = none := by
  rw [flagFormat?, if_neg hj, if_neg ho]

/-- The format that the pass finds is that of the last format flag. -/
theorem takeOutput_result {args : List String} {chosen : Option OutputFormat}
    (h : (takeOutput args).result = .ok chosen) : chosen = lastFormat? args := by
  fun_induction takeOutput args generalizing chosen with
  | case1 => exact (Except.ok.inj h).symm
  | case2 => cases h
  | case3 => cases h
  | case4 => cases h
  | case5 value rest hv format hf ih =>
    obtain ⟨later?, hl, rfl⟩ := Passes.exists_of_result_map h
    have hvalue := isFlag_of_ofName? hf
    have hnone : flagFormat? value rest = none :=
      flagFormat?_of_ne (ne_of_isFlag hvalue rfl) (ne_of_isFlag hvalue rfl) rest
    rw [lastFormat?, lastFormat?, hnone, Option.or_none, ← ih hl, flagFormat?,
      if_neg (by decide), if_pos rfl, List.head?_cons, Option.bind_some, hf]
  | case6 args ho ih =>
    obtain ⟨later?, hl, rfl⟩ := Passes.exists_of_result_map h
    rw [lastFormat?, ← ih hl, flagFormat?, if_pos rfl]
  | case7 arg args ho hj ih =>
    rw [lastFormat?, flagFormat?_of_ne hj ho, Option.or_none]
    exact ih h

/-- A pass that succeeds leaves out the format flags with their values and nothing else. -/
theorem takeOutput_rest {args : List String} {chosen : Option OutputFormat}
    (h : (takeOutput args).result = .ok chosen) :
    (takeOutput args).rest = (withoutPairs ["--output"] args).filter (· ≠ "--json") := by
  fun_induction takeOutput args generalizing chosen with
  | case1 => rfl
  | case2 => cases h
  | case3 => cases h
  | case4 => cases h
  | case5 value rest hv format hf ih =>
    obtain ⟨later?, hl, -⟩ := Passes.exists_of_result_map h
    rw [Pass.rest_map, ih hl, withoutPairs_pair (List.mem_singleton_self _)]
  | case6 args ho ih =>
    obtain ⟨later?, hl, -⟩ := Passes.exists_of_result_map h
    rw [Pass.rest_map, ih hl, withoutPairs_keep (by decide),
      List.filter_cons_of_neg (by decide)]
  | case7 arg args ho hj ih =>
    rw [Pass.rest_keep, ih h, withoutPairs_keep (mt List.mem_singleton.mp ho), List.filter_cons,
      if_pos (decide_eq_true hj)]

/-- What looks like a flag and is no format flag is still there. -/
theorem mem_rest_takeOutput {args : List String} {chosen : Option OutputFormat} {flag : String}
    (hflag : isFlag flag = true) (hout : flag ≠ "--output") (hjson : flag ≠ "--json")
    (h : (takeOutput args).result = .ok chosen) :
    flag ∈ (takeOutput args).rest ↔ flag ∈ args := by
  fun_induction takeOutput args generalizing chosen with
  | case1 => exact Iff.rfl
  | case2 => cases h
  | case3 => cases h
  | case4 => cases h
  | case5 value rest hv format hf ih =>
    obtain ⟨later?, hl, -⟩ := Passes.exists_of_result_map h
    have hvalue : flag ≠ value := (ne_of_isFlag (isFlag_of_ofName? hf) hflag).symm
    rw [Pass.rest_map, ih hl, List.mem_cons, List.mem_cons]
    simp [hout, hvalue]
  | case6 args ho ih =>
    obtain ⟨later?, hl, -⟩ := Passes.exists_of_result_map h
    rw [Pass.rest_map, ih hl, List.mem_cons]
    simp [hjson]
  | case7 arg args ho hj ih =>
    rw [Pass.rest_keep, List.mem_cons, List.mem_cons, ih h]

end DeviceShell.Proofs.LastFlag
