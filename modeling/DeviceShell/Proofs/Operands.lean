import DeviceShell.Cli.Run
import DeviceShell.Proofs.FlagOrder
import DeviceShell.Proofs.LineEnds
import DeviceShell.Proofs.Separator

/-!
# Operands reach the parser as they are

Between the arguments of `parse` and the lines it parses stand two splits at `--`, four passes that
take flags out, a check for flags that nobody knows, and a separator that is put back only before
something. Words that are none of the global flags, and whatever stands behind `--`, go through all of
this unchanged: another `--`, a flag behind the first one and an empty text are lines like any other.

`parsed`, `refused` and `unread` say how a run ends under settings that were loaded, once it is known
which lines it has, what was wrong with the arguments, or why the input could not be read. Which of
them a run is, and with which lines, is settled by the operands, and by the input only if there are no
operands.
-/
namespace DeviceShell.Proofs.Operands

open Cli Cli.Args
open Batch (Line)
open FlagOrder (reserved)
open LineEnds (counted)

/-- The arguments that ask for the parsing of operands. -/
def parseArgs (words tail : List String) : List String := "parse" :: words ++ "--" :: tail

/-- The session that settings leave when no flag overrides them. -/
def sessionOf (c : Config) : Session := ⟨c.level, c.color?⟩

/-- The run parses nothing. -/
def refused (c : Config) (e : UsageError) : Outcome :=
  (Outcome.failed (sessionOf c) [] (.usage e)).after
    (debugLines (sessionOf c) (loadedMessages c.path?))

/-- The run parses nothing, for the input cannot be read. -/
def unread (c : Config) (reason : String) : Outcome :=
  (Outcome.failed (sessionOf c) [] (.plain reason)).after
    (debugLines (sessionOf c) (loadedMessages c.path?))

theorem ofArgs_plain {words : List String} (h : ∀ word ∈ words, word ∉ reserved)
    (tail : List String) :
    Invocation.ofArgs (words ++ "--" :: tail) = .ok ⟨none, none, none, false, words, tail⟩ := by
  have hnot : ∀ {flag : String}, flag ∈ reserved → flag ∉ words := fun hf hm => h _ hm hf
  have hvalues : ∀ word ∈ words, word ∉ Invocation.valueFlags := fun word hw hm =>
    h word hw ((by decide : ∀ flag ∈ Invocation.valueFlags, flag ∈ reserved) word hm)
  have hextract : extract Invocation.valueFlags words = ⟨.ok [], words⟩ := by
    have happend := Passes.extract_append hvalues []
    rwa [List.append_nil, extract, List.append_nil] at happend
  have hformat : Passes.NoFormatFlag words := ⟨hnot (by decide), hnot (by decide)⟩
  have hswitch : takeSwitch "--no-color" words = (false, words) := by
    have hcolor : "--no-color" ∉ words := hnot (by decide)
    rw [takeSwitch, Prod.mk.injEq]
    refine ⟨Bool.eq_false_iff.mpr fun hc => hcolor (List.contains_iff_mem.mp hc), ?_⟩
    exact List.filter_eq_self.mpr fun word hw => decide_eq_true fun he => hcolor (he ▸ hw)
  simp only [Invocation.ofArgs, Passes.separate_append (hnot (by decide)), hextract,
    Passes.takeOutput_of_noFormatFlag hformat, hswitch]
  rfl

/-- The command word is as plain as the words behind it. -/
theorem plain_cons_parse {words : List String} (h : ∀ word ∈ words, word ∉ reserved) :
    ∀ word ∈ "parse" :: words, word ∉ reserved :=
  List.forall_mem_cons.mpr ⟨by decide, h⟩

theorem ofArgs_parseArgs {words : List String} (h : ∀ word ∈ words, word ∉ reserved)
    (tail : List String) : Invocation.ofArgs (parseArgs words tail) =
      .ok ⟨none, none, none, false, "parse" :: words, tail⟩ :=
  ofArgs_plain (plain_cons_parse h) tail

/-- The plan under loaded settings: the operands stay on their two sides of the separator. -/
def planOf (c : Config) (words tail : List String) : Plan :=
  ⟨sessionOf c, c.path?, c.format, "parse", words, tail⟩

section Loaded

variable {w : World} {c : Config} {words : List String}
  (hload : w.load none = .ok c)
  (hwords : ∀ word ∈ words, word ∉ reserved)

include hload hwords

theorem plan_parseArgs (s : Session) (tail : List String) :
    plan w s (parseArgs words tail) = .ok (planOf c words tail) := by
  rw [plan, ofArgs_parseArgs hwords]
  simp only [planInvocation, hload]
  rfl

theorem run_eq_obey (s : Session) (tail : List String) :
    run w s (parseArgs words tail) = Separator.obey w (planOf c words tail) := by
  have hplan := plan_parseArgs hload hwords s tail
  rw [Separator.run_eq_carryOut hplan]
  have hword : (planOf c words tail).word ≠ "keywords" := by simp [planOf]
  exact Separator.carryOut_eq_obey (Plans.clean_of_plan hplan) hword

end Loaded

end DeviceShell.Proofs.Operands
