import DeviceShell.Report.Logger
import Mathlib.Data.List.Forall2

/-!
# How much a log says

What a step writes depends on the threshold in force at that step and on the step itself, and on nothing
that was logged before. A higher threshold writes less: it leaves out strings of a call and adds none. So
two sequences of steps with the same calls can be compared call by call, however their levels change in
between, and `verbosity` compares them. An error is written under every threshold, and its trace only
while debugging.
-/
namespace DeviceShell.Proofs.Verbosity

open Logger

/-- What a step writes under the threshold it meets. -/
def written (label : String) (threshold : LogLevel) : LogStep → List String
  | .setLevel _ => []
  | .log call => write label threshold call

def call? : LogStep → Option LogCall
  | .setLevel _ => none
  | .log call => some call

def calls (steps : List LogStep) : List LogCall := steps.filterMap call?

/-- Of a list with an entry for each step, the entries that belong to calls. -/
def atCalls {α : Type} : List LogStep → List α → List α
  | .setLevel _ :: steps, _ :: entries => atCalls steps entries
  | .log _ :: steps, entry :: entries => entry :: atCalls steps entries
  | _, _ => []

/-- The threshold that each step meets. -/
def levels (threshold : LogLevel) (steps : List LogStep) : List LogLevel :=
  (List.range steps.length).map fun i => levelAfter threshold (steps.take i)

/-- The second sequence has the calls of the first, and none of them meets a lower threshold there. The
levels may change at other places and another number of times. -/
structure Quieter (threshold : LogLevel) (steps : List LogStep) (threshold' : LogLevel)
    (steps' : List LogStep) : Prop where
  calls : calls steps = calls steps'
  levels : List.Forall₂ (fun level level' : LogLevel => level.weight ≤ level'.weight)
    (atCalls steps (levels threshold steps)) (atCalls steps' (levels threshold' steps'))

/-- The line of a message. -/
def messageLine (label : String) (call : LogCall) : String :=
  label ++ tag call.level ++ " " ++ call.message

/-- What can be relied on for the strings of one call. -/
structure Spoken (label : String) (threshold : LogLevel) (call : LogCall) (out : List String) :
    Prop where
  error : call.level = .error → out.head? = some (messageLine label call)
  traceless : threshold ≠ .debug → out <+: [messageLine label call]
  debug : threshold = .debug → out = messageLine label call :: call.trace?.toList

theorem passes_debug (level : LogLevel) : level.passes .debug := by
  cases level <;> rfl

theorem debug_passes_iff (threshold : LogLevel) :
    LogLevel.debug.passes threshold ↔ threshold = .debug := by
  cases threshold <;> decide

theorem passes_of_weight_le {threshold threshold' : LogLevel}
    (h : threshold.weight ≤ threshold'.weight) {level : LogLevel} (hp : level.passes threshold') :
    level.passes threshold := by
  have hle : threshold'.weight ≤ level.weight := of_decide_eq_true hp
  exact decide_eq_true (Nat.le_trans h hle)

theorem ite_sublist_ite {α : Type} {p q : Prop} [Decidable p] [Decidable q] (h : q → p)
    (xs : List α) : (if q then xs else []).Sublist (if p then xs else []) := by
  by_cases hq : q
  · rw [if_pos hq, if_pos (h hq)]
  · rw [if_neg hq]
    exact List.nil_sublist _

/-- Both strings of a call are kept back by the same rule, each for its own level. -/
theorem write_sublist (label : String) {threshold threshold' : LogLevel}
    (h : threshold.weight ≤ threshold'.weight) (call : LogCall) :
    (write label threshold' call).Sublist (write label threshold call) := by
  unfold write
  apply List.Sublist.append
  · exact ite_sublist_ite (passes_of_weight_le h) _
  · exact ite_sublist_ite (passes_of_weight_le h) _

theorem spoken_write (label : String) (threshold : LogLevel) (call : LogCall) :
    Spoken label threshold call (write label threshold call) where
  error h := by
    have hpasses : call.level.passes threshold := by
      rw [h]
      cases threshold <;> rfl
    unfold write
    rw [if_pos hpasses]
    rfl
  traceless h := by
    unfold write
    rw [if_neg (mt (debug_passes_iff threshold).mp h), List.append_nil]
    split
    · exact List.prefix_refl _
    · exact List.nil_prefix
  debug h := by
    subst h
    unfold write
    rw [if_pos (passes_debug call.level), if_pos (passes_debug .debug)]
    rfl

theorem levels_cons (threshold : LogLevel) (step : LogStep) (steps : List LogStep) :
    levels threshold (step :: steps) = threshold :: levels (levelAfter threshold [step]) steps := by
  unfold levels
  rw [List.length_cons, List.range_succ_eq_map, List.map_cons, List.map_map]
  rfl

theorem getElem?_trace (label : String) (threshold : LogLevel) (steps : List LogStep) (i : Nat) :
    (trace label threshold steps)[i]? =
      steps[i]?.map (written label (levelAfter threshold (steps.take i))) := by
  induction steps generalizing threshold i with
  | nil => rfl
  | cons step steps ih =>
    cases i with
    | zero => cases step <;> rfl
    | succ i =>
      cases step with
      | setLevel level => exact ih level i
      | log call => exact ih threshold i

theorem atCalls_trace (label : String) (threshold : LogLevel) (steps : List LogStep) :
    atCalls steps (trace label threshold steps) =
      List.zipWith (write label) (atCalls steps (levels threshold steps)) (calls steps) := by
  induction steps generalizing threshold with
  | nil => rfl
  | cons step steps ih =>
    rw [levels_cons]
    cases step with
    | setLevel level => exact ih level
    | log call => exact congrArg _ (ih threshold)

theorem forall₂_zipWith_write (label : String) {levels levels' : List LogLevel}
    (h : List.Forall₂ (fun level level' : LogLevel => level.weight ≤ level'.weight) levels levels')
    (calls : List LogCall) :
    List.Forall₂ (fun out out' : List String => out'.Sublist out)
      (List.zipWith (write label) levels calls) (List.zipWith (write label) levels' calls) := by
  induction h generalizing calls with
  | nil => exact .nil
  | cons hle _ ih =>
    cases calls with
    | nil => exact .nil
    | cons call calls => exact .cons (write_sublist label hle call) (ih calls)

/-- The log of any logger whose threshold follows its settings. A step writes what its own threshold and
call make it write. Of two sequences with the same calls, the one whose thresholds are nowhere lower
writes at each call some of the strings of the other, in their order. Every call is spoken for at the
threshold it meets. -/
theorem verbosity (label : String) (threshold : LogLevel) (steps : List LogStep) :
    (∀ i : Nat, (trace label threshold steps)[i]? =
      steps[i]?.map (written label (levelAfter threshold (steps.take i)))) ∧
    (∀ threshold' steps', Quieter threshold steps threshold' steps' →
      List.Forall₂ (fun out out' : List String => out'.Sublist out)
        (atCalls steps (trace label threshold steps))
        (atCalls steps' (trace label threshold' steps'))) ∧
    (∀ (i : Nat) (call : LogCall), steps[i]? = some (.log call) →
      ∃ out, (trace label threshold steps)[i]? = some out ∧
        Spoken label (levelAfter threshold (steps.take i)) call out) := by
  refine ⟨getElem?_trace label threshold steps, ?_, ?_⟩
  · intro threshold' steps' h
    rw [atCalls_trace, atCalls_trace, ← h.calls]
    exact forall₂_zipWith_write label h.levels (calls steps)
  · intro i call h
    refine ⟨write label (levelAfter threshold (steps.take i)) call, ?_, spoken_write _ _ _⟩
    rw [getElem?_trace, h]
    rfl

/-- Debugging is given up behind an error that comes with its fault; the quieter sequence never debugs
and raises its level twice. -/
theorem verbosity_raised :
    let failure := LogCall.error "scan failed" (some ⟨.plain (some "no radio"), some "Error: no radio"⟩)
    let steps : List LogStep :=
      [.log failure, .setLevel .info, .log (.info "retry"), .log (.warn "weak")]
    let steps' : List LogStep :=
      [.setLevel .warn, .log failure, .log (.info "retry"), .setLevel .error, .log (.warn "weak")]
    Quieter .debug steps .info steps' ∧
    trace "log:" .debug steps =
      [["log: error scan failed", "Error: no radio"], [], ["log: retry"], ["log: warn weak"]] ∧
    trace "log:" .info steps' = [[], ["log: error scan failed"], [], [], []] ∧
    List.Forall₂ (fun out out' : List String => out'.Sublist out)
      (atCalls steps (trace "log:" .debug steps)) (atCalls steps' (trace "log:" .info steps')) ∧
    steps[0]? = some (.log failure) ∧
    ∃ out, (trace "log:" .debug steps)[0]? = some out ∧ Spoken "log:" .debug failure out := by
  intro failure steps steps'
  obtain ⟨_, hquieter, hspoken⟩ := verbosity "log:" .debug steps
  have h : Quieter .debug steps .info steps' :=
    ⟨rfl, .cons (by decide) (.cons (by decide) (.cons (by decide) .nil))⟩
  refine ⟨h, by decide, by decide, ?_, rfl, ?_⟩
  · exact hquieter .info steps' h
  · exact hspoken 0 failure rfl

end DeviceShell.Proofs.Verbosity
