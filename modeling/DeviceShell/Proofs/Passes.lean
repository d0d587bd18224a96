import DeviceShell.Cli.Invocation

/-!
# What the passes leave

A pass takes flags out and leaves the other arguments in their order, so whatever it leaves was there
before. The separator splits at its first occurrence only. After the format pass no format flag is
left, and a list without format flags goes through it untouched; both are needed where a second pass
runs over what a first one left.
-/
namespace DeviceShell.Proofs.Passes

open Cli Cli.Args

theorem separate_cons {arg : String} {args : List String} (h : arg ≠ "--") :
    separate (arg :: args) = ⟨arg :: (separate args).flagged, (separate args).positional⟩ := by
  rw [separate, if_neg h]

theorem separate_append {front tail : List String} (h : "--" ∉ front) :
    separate (front ++ "--" :: tail) = ⟨front, tail⟩ := by
  induction front with
  | nil => rw [List.nil_append, separate, if_pos rfl]
  | cons arg front ih =>
    obtain ⟨hne, hrest⟩ := List.ne_and_not_mem_of_not_mem_cons h
    rw [List.cons_append, separate_cons (Ne.symm hne), ih hrest]

theorem separate_of_not_mem {args : List String} (h : "--" ∉ args) :
    separate args = ⟨args, []⟩ := by
  induction args with
  | nil => rfl
  | cons arg args ih =>
    obtain ⟨hne, hrest⟩ := List.ne_and_not_mem_of_not_mem_cons h
    rw [separate_cons (Ne.symm hne), ih hrest]

theorem separator_not_mem_flagged (args : List String) : "--" ∉ (separate args).flagged := by
  induction args with
  | nil => exact List.not_mem_nil
  | cons arg args ih =>
    by_cases harg : arg = "--"
    · rw [separate, if_pos harg]
      exact List.not_mem_nil
    · rw [separate_cons harg]
      exact List.not_mem_cons_of_ne_of_not_mem (Ne.symm harg) ih

theorem extract_keep {names args : List String} {arg : String} (h : arg ∉ names) :
    extract names (arg :: args) = (extract names args).keep arg := by
  rw [extract.eq_def]
  simp only [h, ↓reduceIte]

theorem extract_append {names front : List String} (h : ∀ arg ∈ front, arg ∉ names)
    (args : List String) :
    extract names (front ++ args) =
      ⟨(extract names args).result, front ++ (extract names args).rest⟩ := by
  induction front with
  | nil => rfl
  | cons arg front ih =>
    obtain ⟨harg, hfront⟩ := List.forall_mem_cons.mp h
    rw [List.cons_append, extract_keep harg, ih hfront]
    rfl

theorem extract_pair {names args : List String} {name value : String} (h : name ∈ names)
    (hv : isFlag value = false) :
    extract names (name :: value :: args) = (extract names args).map ((name, value) :: ·) := by
  rw [extract]
  simp only [h, hv, Bool.false_eq_true, ↓reduceIte]

theorem valueOf?_cons (name : String) (pair : String × String)
    (pairs : List (String × String)) :
    valueOf? name (pair :: pairs) =
      (valueOf? name pairs).or (if name = pair.1 then some pair.2 else none) := by
  have hone : [pair].lookup name = if name = pair.1 then some pair.2 else none := by
    obtain ⟨key, value⟩ := pair
    by_cases h : name = key
    · simp [h]
    · simp [List.lookup_cons, beq_eq_false_iff_ne.mpr h, h]
  rw [valueOf?, valueOf?, List.reverse_cons, List.lookup_append, hone]

theorem takeOutput_keep {args : List String} {arg : String} (ho : arg ≠ "--output")
    (hj : arg ≠ "--json") : takeOutput (arg :: args) = (takeOutput args).keep arg := by
  rw [takeOutput.eq_def]
  simp only [ho, hj, ↓reduceIte]

theorem takeOutput_json (args : List String) :
    takeOutput ("--json" :: args) = (takeOutput args).map (·.or (some .json)) := by
  rw [takeOutput.eq_def]
  simp only [String.reduceEq, ↓reduceIte]

theorem takeOutput_output (format : OutputFormat) (args : List String) :
    takeOutput ("--output" :: format.name :: args) =
      (takeOutput args).map (·.or (some format)) := by
  cases format <;> rw [takeOutput] <;> rfl

theorem extract_sublist (names args : List String) :
    (extract names args).rest.Sublist args := by
  fun_induction extract names args with
  | case1 => exact List.Sublist.refl _
  | case2 arg h => exact List.Sublist.refl _
  | case3 arg h value rest hv => exact List.Sublist.refl _
  | case4 arg h value rest hv ih => exact (ih.cons _).cons _
  | case5 arg args h ih => exact ih.cons_cons _

theorem takeOutput_sublist (args : List String) : (takeOutput args).rest.Sublist args := by
  fun_induction takeOutput args with
  | case1 => exact List.Sublist.refl _
  | case2 => exact List.Sublist.refl _
  | case3 => exact List.Sublist.refl _
  | case4 => exact List.Sublist.refl _
  | case5 rest value hv format hf ih => exact (ih.cons _).cons _
  | case6 args ho ih => exact ih.cons _
  | case7 arg args ho hj ih => exact ih.cons_cons _

theorem takeSwitch_sublist (name : String) (args : List String) :
    (takeSwitch name args).2.Sublist args := List.filter_sublist

/-- No argument is a format flag. -/
structure NoFormatFlag (args : List String) : Prop where
  output : "--output" ∉ args
  json : "--json" ∉ args

theorem noFormatFlag_of_sublist {args args' : List String} (h : NoFormatFlag args)
    (hs : args'.Sublist args) : NoFormatFlag args' :=
  ⟨fun hm => h.output (hs.subset hm), fun hm => h.json (hs.subset hm)⟩

theorem noFormatFlag_nil : NoFormatFlag [] := ⟨List.not_mem_nil, List.not_mem_nil⟩

theorem noFormatFlag_cons {arg : String} {args : List String} (ho : arg ≠ "--output")
    (hj : arg ≠ "--json") (h : NoFormatFlag args) : NoFormatFlag (arg :: args) :=
  ⟨List.not_mem_cons_of_ne_of_not_mem (Ne.symm ho) h.output,
    List.not_mem_cons_of_ne_of_not_mem (Ne.symm hj) h.json⟩

theorem takeOutput_append {front : List String} (h : NoFormatFlag front) (tail : List String) :
    takeOutput (front ++ tail) =
      ⟨(takeOutput tail).result, front ++ (takeOutput tail).rest⟩ := by
  induction front with
  | nil => rfl
  | cons arg front ih =>
    obtain ⟨ho, ho'⟩ := List.ne_and_not_mem_of_not_mem_cons h.output
    obtain ⟨hj, hj'⟩ := List.ne_and_not_mem_of_not_mem_cons h.json
    rw [List.cons_append, takeOutput_keep (Ne.symm ho) (Ne.symm hj), ih ⟨ho', hj'⟩]
    rfl

theorem takeOutput_of_noFormatFlag {args : List String} (h : NoFormatFlag args) :
    takeOutput args = ⟨.ok none, args⟩ := by
  have ha := takeOutput_append h []
  rwa [List.append_nil, takeOutput, List.append_nil] at ha

theorem exists_of_result_map {α β : Type} {f : α → β} {p : Pass α} {b : β}
    (h : (p.map f).result = .ok b) : ∃ a, p.result = .ok a ∧ f a = b := by
  rw [Pass.result_map] at h
  cases hp : p.result with
  | error e => rw [hp] at h; cases h
  | ok a =>
    rw [hp] at h
    exact ⟨a, rfl, Except.ok.inj h⟩

theorem error_of_map {ε α β : Type} {f : α → β} {x : Except ε α} {e : ε}
    (h : x.map f = .error e) : x = .error e := by
  cases x with
  | error e' => rw [Except.error.inj h]
  | ok a => cases h

/-- The format pass leaves no format flag. -/
theorem noFormatFlag_rest {args : List String} {format? : Option OutputFormat}
    (h : (takeOutput args).result = .ok format?) : NoFormatFlag (takeOutput args).rest := by
  fun_induction takeOutput args generalizing format? with
  | case1 => exact noFormatFlag_nil
  | case2 => cases h
  | case3 => cases h
  | case4 => cases h
  | case5 rest value hv format hf ih =>
    obtain ⟨later?, hl, -⟩ := exists_of_result_map h
    exact ih hl
  | case6 args ho ih =>
    obtain ⟨later?, hl, -⟩ := exists_of_result_map h
    exact ih hl
  | case7 arg args ho hj ih => exact noFormatFlag_cons ho hj (ih h)

/-- The format pass finds nothing exactly when there is no format flag. -/
theorem noFormatFlag_iff {args : List String} :
    NoFormatFlag args ↔ (takeOutput args).result = .ok none := by
  constructor
  · intro h
    rw [takeOutput_of_noFormatFlag h]
  · intro h
    fun_induction takeOutput args with
    | case1 => exact noFormatFlag_nil
    | case2 => cases h
    | case3 => cases h
    | case4 => cases h
    | case5 rest value hv format hf ih =>
      obtain ⟨later?, -, he⟩ := exists_of_result_map h
      cases later? <;> cases he
    | case6 args ho ih =>
      obtain ⟨later?, -, he⟩ := exists_of_result_map h
      cases later? <;> cases he
    | case7 arg args ho hj ih => exact noFormatFlag_cons ho hj (ih h)

end DeviceShell.Proofs.Passes
