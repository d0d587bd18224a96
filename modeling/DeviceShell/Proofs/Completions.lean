import DeviceShell.Cli.Run
import DeviceShell.Proofs.JsonReading
import DeviceShell.Proofs.LastFlag

/-!
# What a typed beginning is answered

No two keywords begin with the same letter. So at most one keyword goes with a text that is not empty,
be it that the keyword continues the text or that the text continues the keyword, and one letter
settles a completion: typing on along the keyword does not change it. `completion_exact` says so of
every typed text, and says what the subcommand for completions answers: the candidates of the one
argument that its format flags leave, in either format, and an exit code only when there are none.
-/
namespace DeviceShell.Proofs.Completions

open Cli Cli.Args
open LastFlag (lastFormat? withoutPairs)

/-- The typed text begins the keyword. -/
def Begins (typed : String) (k : Keyword) : Prop := typed.toList <+: k.text.toList

/-- Of a word and a keyword one begins the other. -/
def GoesWith (word : String) (k : Keyword) : Prop := k.text.toList <+: word.toList ∨ Begins word k

theorem isNear_iff {word : String} {k : Keyword} : k.isNear word = true ↔ GoesWith word k := by
  rw [Keyword.isNear, Bool.or_eq_true, Text.hasPrefix_iff, Text.hasPrefix_iff]
  rfl

theorem initial_injective {k l : Keyword} (h : k.text.toList.head? = l.text.toList.head?) :
    k = l := by
  revert h
  cases k <;> cases l <;> decide

theorem keyword_ne_empty (k : Keyword) : k.text ≠ "" := by
  cases k <;> decide

theorem head?_eq_of_beginning {cs ds : List Char} (hne : cs ≠ []) (h : cs <+: ds) :
    cs.head? = ds.head? := by
  obtain ⟨c, cs, rfl⟩ := List.exists_cons_of_ne_nil hne
  obtain ⟨rest, rfl⟩ := h
  rfl

theorem head?_eq_of_goesWith {word : String} {k : Keyword} (hne : word ≠ "")
    (h : GoesWith word k) : word.toList.head? = k.text.toList.head? := by
  rcases h with hk | hword
  · exact (head?_eq_of_beginning (mt String.toList_eq_nil_iff.mp (keyword_ne_empty k)) hk).symm
  · exact head?_eq_of_beginning (mt String.toList_eq_nil_iff.mp hne) hword

/-- At most one keyword goes with a word. -/
theorem eq_of_goesWith {word : String} {k l : Keyword} (hne : word ≠ "") (hk : GoesWith word k)
    (hl : GoesWith word l) : k = l :=
  initial_injective ((head?_eq_of_goesWith hne hk).symm.trans (head?_eq_of_goesWith hne hl))

theorem only?_eq_some_iff {ks : List Keyword} {k : Keyword} :
    Keyword.only? ks = some k ↔ ks = [k] := by
  constructor
  · intro h
    unfold Keyword.only? at h
    split at h
    · rw [Option.some.inj h]
    · cases h
  · rintro rfl
    rfl

theorem only?_eq_none_iff {ks : List Keyword} : Keyword.only? ks = none ↔ ks.length ≠ 1 := by
  rw [← not_iff_not, not_not, List.length_eq_one_iff, ← ne_eq, Option.ne_none_iff_exists']
  exact exists_congr fun _ => only?_eq_some_iff

theorem mem_all (k : Keyword) : k ∈ Keyword.all := by
  cases k <;> decide

theorem nodup_all : Keyword.all.Nodup := by decide

theorem filter_all_eq_iff {p : Keyword → Bool} (h : ∀ k l, p k = true → p l = true → k = l)
    {k : Keyword} : Keyword.all.filter p = [k] ↔ p k = true := by
  constructor
  · intro hk
    exact (List.mem_filter.mp (hk ▸ List.mem_singleton_self k)).2
  · intro hk
    have hp : p = fun l => decide (l = k) := by
      funext l
      rw [Bool.eq_iff_iff, decide_eq_true_eq]
      exact ⟨fun hl => h l k hl hk, fun hl => hl ▸ hk⟩
    rw [hp]
    cases k <;> rfl

theorem mem_candidates_iff {typed : String} {k : Keyword} :
    k ∈ Keyword.candidates typed ↔ Begins typed k := by
  rw [Keyword.candidates, List.mem_filter, Text.hasPrefix_iff]
  exact and_iff_right (mem_all k)

theorem candidates_eq_singleton_iff {typed : String} (hne : typed ≠ "") {k : Keyword} :
    Keyword.candidates typed = [k] ↔ Begins typed k := by
  rw [Keyword.candidates, filter_all_eq_iff, Text.hasPrefix_iff]
  · rfl
  · intro l m hl hm
    exact eq_of_goesWith hne (.inr (Text.hasPrefix_iff.mp hl)) (.inr (Text.hasPrefix_iff.mp hm))

theorem complete?_eq_some_iff {typed : String} {k : Keyword} :
    Keyword.complete? typed = some k ↔ typed ≠ "" ∧ Begins typed k := by
  by_cases hempty : typed = ""
  · subst hempty
    have hnone : Keyword.complete? "" = none := by rfl
    rw [hnone]
    exact ⟨nofun, fun h => absurd rfl h.1⟩
  · rw [Keyword.complete?, only?_eq_some_iff, candidates_eq_singleton_iff hempty]
    exact (and_iff_right hempty).symm

theorem near?_eq_some_iff {word : String} {k : Keyword} :
    Keyword.near? word = some k ↔ word ≠ "" ∧ GoesWith word k := by
  rw [Keyword.near?]
  by_cases hempty : word = ""
  · rw [if_pos hempty]
    exact ⟨nofun, fun h => absurd hempty h.1⟩
  · rw [if_neg hempty, only?_eq_some_iff, filter_all_eq_iff, isNear_iff]
    · exact (and_iff_right hempty).symm
    · intro l m hl hm
      exact eq_of_goesWith hempty (isNear_iff.mp hl) (isNear_iff.mp hm)

theorem length_candidates_le {typed : String} (hne : typed ≠ "") :
    (Keyword.candidates typed).length ≤ 1 := by
  cases hks : Keyword.candidates typed with
  | nil => exact Nat.zero_le 1
  | cons k ks =>
    have hk : Begins typed k := mem_candidates_iff.mp (hks ▸ List.mem_cons_self)
    rw [← hks, (candidates_eq_singleton_iff hne).mpr hk]
    exact Nat.le_refl 1

/-- A sublist of distinct things holds of them what it holds, in their order. -/
theorem eq_filter_of_sublist {α : Type} [DecidableEq α] {ks ls : List α} (h : ks.Sublist ls)
    (hnodup : ls.Nodup) : ks = ls.filter (· ∈ ks) := by
  induction h with
  | slnil => rfl
  | @cons ks ls l h ih =>
    obtain ⟨hl, hls⟩ := List.nodup_cons.mp hnodup
    have hout : ¬ decide (l ∈ ks) = true := fun hk => hl (h.subset (of_decide_eq_true hk))
    rw [List.filter_cons, if_neg hout]
    exact ih hls
  | @cons_cons ks ls l h ih =>
    obtain ⟨hl, hls⟩ := List.nodup_cons.mp hnodup
    have hrest : ls.filter (· ∈ l :: ks) = ls.filter (· ∈ ks) := by
      refine List.filter_congr fun m hm => ?_
      have hne : m ≠ l := fun he => hl (he ▸ hm)
      simp [hne]
    rw [List.filter_cons, if_pos (decide_eq_true List.mem_cons_self), hrest, ← ih hls]

theorem eq_candidates_iff {typed : String} {ks : List Keyword} :
    ks = Keyword.candidates typed ↔
      ks.Sublist Keyword.all ∧ ∀ k, k ∈ ks ↔ Begins typed k := by
  constructor
  · rintro rfl
    exact ⟨List.filter_sublist, fun _ => mem_candidates_iff⟩
  · rintro ⟨hsub, hmem⟩
    rw [eq_filter_of_sublist hsub nodup_all, Keyword.candidates]
    refine List.filter_congr fun k _ => ?_
    rw [Bool.eq_iff_iff, decide_eq_true_eq, Text.hasPrefix_iff]
    exact hmem k

/-- Candidates and completion of a typed text, and of the texts that lie between it and its
completion. -/
structure Settled (typed : String) : Prop where
  candidates : ∀ ks, ks = Keyword.candidates typed ↔
    ks.Sublist Keyword.all ∧ ∀ k, k ∈ ks ↔ Begins typed k
  few : typed ≠ "" → (Keyword.candidates typed).length ≤ 1
  completion : ∀ k, Keyword.complete? typed = some k ↔ typed ≠ "" ∧ Begins typed k
  stable : ∀ k longer, Keyword.complete? typed = some k → typed.toList <+: longer.toList →
    Begins longer k → Keyword.complete? longer = some k

theorem settled (typed : String) : Settled typed := by
  refine ⟨fun _ => eq_candidates_iff, length_candidates_le, fun _ => complete?_eq_some_iff, ?_⟩
  intro k longer h hlonger hk
  refine complete?_eq_some_iff.mpr ⟨?_, hk⟩
  rintro rfl
  -- What begins the empty text is empty.
  exact (complete?_eq_some_iff.mp h).1 (String.toList_eq_nil_iff.mp (List.prefix_nil.mp hlonger))

/-- The arguments that are left when the format flags before the separator are taken out. -/
def remaining (args : List String) : List String :=
  (withoutPairs ["--output"] (separate args).flagged).filter (· ≠ "--json") ++
    (separate args).positional

/-- The text that is to be completed: the one argument that is left, or the empty text. -/
def Typed (args : List String) (typed : String) : Prop :=
  remaining args = [typed] ∨ remaining args = [] ∧ typed = ""

/-- The answer to a typed text in both formats, and the exit code that comes with it. -/
structure Answer (typed : String) (c : Catalogue.Completion) : Prop where
  returned : c.candidates = Keyword.candidates typed
  plain : c.stdout .text = (Keyword.candidates typed).map Keyword.text
  document : ∃ document : Json, c.stdout .json = [document.indented] ∧
    Json.read? document.indented = some document ∧
    document.field? "prefix" = some (.str typed) ∧
    (document.field? "completion" = some .null ↔ (Keyword.candidates typed).length ≠ 1) ∧
    (∀ k, Keyword.candidates typed = [k] → document.field? "completion" = some (.str k.text)) ∧
    document.field? "candidates" =
      some (.arr ((Keyword.candidates typed).map fun k => .str k.text))
  exitCode : c.exitCode? = if Keyword.candidates typed = [] then some 1 else none

theorem candidates_of (typed : String) :
    (Catalogue.Completion.of typed).candidates = Keyword.candidates typed := by
  rw [Catalogue.Completion.of]
  cases hk : Keyword.complete? typed with
  | none => rfl
  | some k => exact (only?_eq_some_iff.mp hk).symm

theorem exact_completion (typed : String) :
    JsonReading.Exact (Catalogue.Completion.of typed).toJson := by
  have hcompletion : JsonReading.Exact
      (((Catalogue.Completion.of typed).completion?.map fun k => Json.str k.text).getD .null) := by
    cases (Catalogue.Completion.of typed).completion? with
    | none => exact .null
    | some k => exact .text k.text
  have hcandidates : JsonReading.Exact
      (.arr ((Catalogue.Completion.of typed).candidates.map fun k => .str k.text)) := by
    refine .array fun v hv => ?_
    obtain ⟨k, -, rfl⟩ := List.mem_map.mp hv
    exact .text k.text
  refine .object (by simp) fun f hf => ?_
  simp only [List.mem_cons, List.not_mem_nil, or_false] at hf
  rcases hf with rfl | rfl | rfl
  · exact .text typed
  · exact hcompletion
  · exact hcandidates

theorem answer_of (typed : String) : Answer typed (Catalogue.Completion.of typed) := by
  have hcandidates := candidates_of typed
  have hfield : (Catalogue.Completion.of typed).toJson.field? "completion" =
      some (((Keyword.complete? typed).map fun k => Json.str k.text).getD .null) := rfl
  constructor
  · exact hcandidates
  · rw [Catalogue.Completion.stdout, hcandidates]
  · refine ⟨_, rfl, JsonReading.read?_indented (exact_completion typed), rfl, ?_, ?_, ?_⟩
    · rw [hfield, ← only?_eq_none_iff, ← Keyword.complete?]
      cases Keyword.complete? typed <;> simp
    · intro k hk
      rw [hfield, Keyword.complete?, only?_eq_some_iff.mpr hk]
      rfl
    · rw [← hcandidates]
      rfl
  · rw [Catalogue.Completion.exitCode?, hcandidates]
    simp only [List.isEmpty_iff]

theorem exists_typed_of_complete {format : OutputFormat} {args : List String}
    {r : Catalogue.Request} (h : Catalogue.complete format args = .ok r) :
    ∃ typed, Typed args typed ∧
      r = ⟨(lastFormat? (separate args).flagged).getD format, .of typed⟩ := by
  simp only [Catalogue.complete] at h
  split at h
  · cases h
  · next chosen hpass =>
    rw [LastFlag.takeOutput_rest hpass, ← remaining] at h
    rw [← LastFlag.takeOutput_result hpass]
    split at h
    · next hnone => exact ⟨"", .inr ⟨hnone, rfl⟩, (Except.ok.inj h).symm⟩
    · next typed hone => exact ⟨typed, .inl hone, (Except.ok.inj h).symm⟩
    · cases h

/-- Every typed text has the candidates that it begins, and completes to the one keyword that it
begins and keeps completing to it. The subcommand answers with just these, in the format that the
last format flag names. -/
theorem completion_exact :
    (∀ typed, Settled typed) ∧
    ∀ format args r, Catalogue.complete format args = .ok r →
      ∃ typed, Typed args typed ∧
        r.format = (lastFormat? (separate args).flagged).getD format ∧
        Answer typed r.completion ∧
        ∀ s, runComplete s format args =
          .answered s (r.completion.stdout r.format) [] r.completion.exitCode? := by
  refine ⟨settled, fun format args r h => ?_⟩
  obtain ⟨typed, htyped, hr⟩ := exists_typed_of_complete h
  refine ⟨typed, htyped, ?_, ?_, fun s => ?_⟩
  · rw [hr]
  · rw [hr]
    exact answer_of typed
  · rw [runComplete, h]

/-- One letter settles a completion and more of the word keep it; behind the separator a format flag
is a typed text that no keyword continues. -/
theorem completion_exact_typed :
    (Keyword.complete? "s" = some .scan ∧ "s".toList <+: "sca".toList ∧ Begins "sca" .scan ∧
      Keyword.complete? "sca" = some .scan) ∧
    (Catalogue.complete .text ["--json", "--", "--json"] = .ok ⟨.json, .of "--json"⟩ ∧
      ∃ typed, Typed ["--json", "--", "--json"] typed ∧ Answer typed (.of "--json")) := by
  have hs : Keyword.complete? "s" = some .scan := by rfl
  have hlonger : "s".toList <+: "sca".toList := by decide
  have hbegins : Begins "sca" .scan := by
    rw [Begins]
    decide
  have hcomplete : Catalogue.complete .text ["--json", "--", "--json"] =
      .ok ⟨.json, .of "--json"⟩ := by rfl
  obtain ⟨typed, htyped, -, hanswer, -⟩ := completion_exact.2 _ _ _ hcomplete
  exact ⟨⟨hs, hlonger, hbegins, (completion_exact.1 "s").stable _ _ hs hlonger hbegins⟩,
    hcomplete, typed, htyped, hanswer⟩

end DeviceShell.Proofs.Completions
