import DeviceShell.Cli.Run

/-!
# Runs of one process

Within a process a run finds the level and the choice of colour that the run before has left. Every
run with arguments makes its own choice of colour before anything is written and puts its own level
in force before anything is logged, so what it shows hangs on its arguments and its world alone:
`run_after_session` compares it with the same run in a process of its own. A run that reaches its
subcommand also leaves the same session behind. A run that ends earlier may leave what it has found,
so of its session nothing is said.
-/
namespace DeviceShell.Proofs.Sessions

open Cli

/-- A run that a process is asked for. -/
structure Call where
  world : World
  argv : List String

/-- What calls leave behind, each starting from what the one before has left. -/
def sessionAfter (s : Session) (calls : List Call) : Session :=
  calls.foldl (fun s call => (run call.world s call.argv).session) s

/-- Everything in an outcome but the session that it leaves. -/
structure Shown where
  stdout : List String
  stderr : List String
  exitCode? : Option Nat
  failure? : Option Failure
  deriving DecidableEq, Repr

def shownOf (o : Outcome) : Shown := ⟨o.stdout, o.stderr, o.exitCode?, o.failure?⟩

/-- Once the flags have chosen a colour, the level that was found shows nowhere. -/
theorem mapError_planInvocation (w : World) (inv : Invocation) {s s' : Session}
    (h : s.color? = s'.color?) :
    (planInvocation w s inv).mapError shownOf = (planInvocation w s' inv).mapError shownOf := by
  have hhelp : ∀ exitCode, shownOf (help w s none exitCode) = shownOf (help w s' none exitCode) := by
    intro exitCode
    unfold help
    rw [h]
    rfl
  unfold planInvocation
  cases inv.words with
  | nil => exact congrArg Except.error (hhelp 1)
  | cons word args =>
    dsimp only
    by_cases hempty : word = ""
    · rw [if_pos hempty, if_pos hempty]
      exact congrArg Except.error (hhelp 1)
    rw [if_neg hempty, if_neg hempty]
    by_cases hword : isHelpWord word = true
    · rw [if_pos hword, if_pos hword]
      exact congrArg Except.error (hhelp 0)
    rw [if_neg hword, if_neg hword]
    by_cases hversion : isVersionWord word = true
    · rw [if_pos hversion, if_pos hversion]
      rfl
    rw [if_neg hversion, if_neg hversion]
    -- From here on the settings decide, and they are put in force without a look at the session.
    cases w.load inv.configPath? <;> rfl

theorem mapError_plan (w : World) (s s' : Session) {argv : List String} (h : argv ≠ []) :
    (plan w s argv).mapError shownOf = (plan w s' argv).mapError shownOf := by
  unfold plan
  rw [List.isEmpty_eq_false_iff.mpr h, if_neg Bool.false_ne_true, if_neg Bool.false_ne_true]
  cases Invocation.ofArgs argv with
  | error e => rfl
  | ok inv => exact mapError_planInvocation w inv rfl

/-- A plan that is reached from one session is reached from every other. -/
theorem plan_eq_ok {w : World} {s : Session} {argv : List String} {p : Plan}
    (hp : plan w s argv = .ok p) (s' : Session) (h : argv ≠ []) : plan w s' argv = .ok p := by
  have hsame := mapError_plan w s s' h
  rw [hp] at hsame
  cases hp' : plan w s' argv with
  | error o => rw [hp'] at hsame; cases hsame
  | ok q =>
    rw [hp'] at hsame
    rw [Except.ok.inj hsame]

theorem shownOf_run (w : World) (s : Session) (argv : List String) :
    shownOf (run w s argv) =
      match (plan w s argv).mapError shownOf with
      | .error shown => shown
      | .ok p => shownOf (p.carryOut w) := by
  unfold run
  cases plan w s argv <;> rfl

/-- A run with arguments shows the same from every session. -/
theorem shownOf_run_eq (w : World) (s s' : Session) {argv : List String} (h : argv ≠ []) :
    shownOf (run w s argv) = shownOf (run w s' argv) := by
  rw [shownOf_run, shownOf_run, mapError_plan w s s' h]

theorem run_eq_of_plan {w : World} {s : Session} {argv : List String} {p : Plan}
    (hp : plan w s argv = .ok p) (s' : Session) (h : argv ≠ []) :
    run w s argv = run w s' argv := by
  unfold run
  rw [hp, plan_eq_ok hp s' h]

/-- After any calls, a run with arguments shows what it shows in a process of its own, and if it
reaches its subcommand it leaves what it leaves there. -/
theorem run_after_session (before : List Call) (w : World) {argv : List String} (h : argv ≠ []) :
    shownOf (run w (sessionAfter .fresh before) argv) = shownOf (run w .fresh argv) ∧
    ∀ p, plan w (sessionAfter .fresh before) argv = .ok p →
      (run w (sessionAfter .fresh before) argv).session = (run w .fresh argv).session := by
  constructor
  · exact shownOf_run_eq w _ _ h
  · intro p hp
    rw [run_eq_of_plan hp .fresh h]

/-- A call that declines colour and asks for everything to be logged, and one that fails. -/
def noisyCalls : List Call :=
  [⟨.empty, ["--no-color", "--log-level", "debug", "keywords"]⟩, ⟨.empty, ["list", "--config"]⟩]

/-- At a terminal an unknown subcommand is answered in colour, though the calls before have declined
it. -/
theorem run_after_session_noisy :
    ["scan"] ≠ [] ∧ sessionAfter .fresh noisyCalls = ⟨.debug, some false⟩ ∧
    (∃ p, plan { World.empty with stderrIsTerminal := true } (sessionAfter .fresh noisyCalls)
      ["scan"] = .ok p) ∧
    shownOf (run { World.empty with stderrIsTerminal := true } (sessionAfter .fresh noisyCalls)
        ["scan"]) =
      shownOf (run { World.empty with stderrIsTerminal := true } .fresh ["scan"]) ∧
    (run { World.empty with stderrIsTerminal := true } (sessionAfter .fresh noisyCalls)
        ["scan"]).session =
      (run { World.empty with stderrIsTerminal := true } .fresh ["scan"]).session := by
  have hafter : sessionAfter .fresh noisyCalls = ⟨.debug, some false⟩ := by decide +kernel
  obtain ⟨p, hp⟩ : ∃ p, plan { World.empty with stderrIsTerminal := true }
      (sessionAfter .fresh noisyCalls) ["scan"] = .ok p := by
    rw [hafter]
    exact ⟨_, rfl⟩
  have h := run_after_session noisyCalls { World.empty with stderrIsTerminal := true }
    (List.cons_ne_nil "scan" [])
  exact ⟨List.cons_ne_nil "scan" [], hafter, ⟨p, hp⟩, h.1, h.2 p hp⟩

end DeviceShell.Proofs.Sessions
