import DeviceShell.Proofs.Completions
import DeviceShell.Proofs.Faults
import DeviceShell.Report.Diagnosis

/-!
# What is suggested for a rejected line

A line that begins with a keyword is rejected for what follows it, and the suggestion shows how that
keyword is used. Any other line is rejected for its first word, and the suggestion is the one keyword
that the word runs past or cuts short, if there is such a keyword. Only where neither helps, for a line
without words or a word that no keyword goes with, the list of the keywords is pointed to.
`suggestion_fits` says so of every rejected line.
-/
namespace DeviceShell.Proofs.Suggestions

open Completions (GoesWith)
open Faults (Faulty)
open Words (Segmented)

/-- The word is the first one of the line. -/
def FirstWord (line word : String) : Prop :=
  ∃ offset rest, Segmented 0 line.toList ((offset, word.toList) :: rest)

/-- A keyword that the word cuts short or runs past. -/
def Missed (word : String) (k : Keyword) : Prop := word ≠ k.text ∧ GoesWith word k

/-- A suggestion that fits a rejected line. -/
structure Fits (line : String) (e : ParseError) (suggestion : String) : Prop where
  usage : e.kind = .malformedArgument ∨ e.kind = .trailingInput →
    ∃ k : Keyword, FirstWord line k.text ∧ suggestion = "Usage: " ++ k.usage
  range : e.kind = .argumentOverflow →
    ∃ k : Keyword, FirstWord line k.text ∧
      suggestion = "Usage: " ++ k.usage ++ " (0 to 18446744073709551615)"
  particular : e.kind ≠ .unrecognizedCommand →
    suggestion ≠ "Run 'scanshell keywords' to see available commands"
  missed : e.kind = .unrecognizedCommand → ∀ k : Keyword,
    suggestion = "Did you mean '" ++ k.usage ++ "'?" ↔ e.token ≠ "" ∧ Missed e.token k
  otherwise : e.kind = .unrecognizedCommand → (∀ k, ¬ (e.token ≠ "" ∧ Missed e.token k)) →
    suggestion = "Run 'scanshell keywords' to see available commands"
  completed : e.kind = .unrecognizedCommand → ∀ k, Keyword.complete? e.token = some k →
    suggestion = "Did you mean '" ++ k.usage ++ "'?"

theorem usageOf?_eq {e : ParseError} {k : Keyword} (h : e.keyword? = some k.text) :
    Diagnosis.usageOf? e = some k.usage := by
  rw [Diagnosis.usageOf?, h, Option.bind_some, Grammar.ofText?_eq_some_iff.mpr rfl, Option.map_some]

/-- Behind a keyword every fault names it. -/
theorem exists_keyword_of_faulty {line : String} {ts : List Token} {e : ParseError}
    (h : Faulty line ts e) (hkind : e.kind ≠ .unrecognizedCommand) :
    ∃ (k : Keyword) (head : Token) (rest : List Token), ts = head :: rest ∧ head.text = k.text ∧
      e.keyword? = some k.text := by
  cases h with
  | blank | unknown _ _ => exact absurd rfl hkind
  | trailing h =>
    obtain ⟨k, -, hk, -⟩ := Faults.mem_loneWords_iff.mp h
    exact ⟨k, _, _, rfl, hk, congrArg some hk⟩
  | missing h | surplus h | malformed h _ | tooLarge h _ _ =>
    obtain ⟨k, -, -, hk, -, -⟩ := Faults.takes_iff.mp h
    exact ⟨k, _, _, rfl, hk, congrArg some hk⟩

theorem firstWord_of_ofLine {line : String} {head : Token} {rest : List Token}
    (h : Token.ofLine line = head :: rest) : FirstWord line head.text :=
  ⟨head.position, rest.map Words.spanOf, Words.ofLine_eq_iff.mp h⟩

/-- The keyword that a line begins with, and how it is used. -/
theorem exists_usage_of_parse {line : String} {e : ParseError} (h : Command.parse line = .error e)
    (hkind : e.kind ≠ .unrecognizedCommand) :
    ∃ k : Keyword, FirstWord line k.text ∧ Diagnosis.usageOf? e = some k.usage := by
  obtain ⟨k, head, rest, hts, hk, hkeyword⟩ :=
    exists_keyword_of_faulty (Faults.faulty_of_parse h) hkind
  exact ⟨k, hk ▸ firstWord_of_ofLine hts, usageOf?_eq hkeyword⟩

theorem suggestion_of_usage {e : ParseError} {usage : String}
    (hkind : e.kind = .malformedArgument ∨ e.kind = .trailingInput)
    (h : Diagnosis.usageOf? e = some usage) : Diagnosis.suggestion e = "Usage: " ++ usage := by
  rw [Diagnosis.suggestion]
  rcases hkind with hkind | hkind <;> simp only [hkind, h]

theorem suggestion_of_range {e : ParseError} {usage : String} (hkind : e.kind = .argumentOverflow)
    (h : Diagnosis.usageOf? e = some usage) :
    Diagnosis.suggestion e = "Usage: " ++ usage ++ " (0 to 18446744073709551615)" := by
  have hlimit : " (0 to " ++ Numeral.write Numeral.limit ++ ")" = " (0 to 18446744073709551615)" := by
    rw [Faults.write_limit]
    rfl
  rw [← hlimit, ← String.append_assoc, ← String.append_assoc, Diagnosis.suggestion]
  simp only [hkind, h]

/-- A word that is not recognised is no keyword. -/
theorem token_ne_text {line : String} {ts : List Token} {e : ParseError} (h : Faulty line ts e)
    (hkind : e.kind = .unrecognizedCommand) (k : Keyword) : e.token ≠ k.text := by
  cases h with
  | blank => exact (Completions.keyword_ne_empty k).symm
  | unknown hlone htakes =>
    intro hk
    have hnone := Faults.ofText?_eq_none_iff.mpr ⟨hlone, htakes⟩
    rw [Grammar.ofText?_eq_some_iff.mpr hk] at hnone
    cases hnone
  | _ => cases hkind

theorem suggestion_of_near {e : ParseError} (hkind : e.kind = .unrecognizedCommand) :
    Diagnosis.suggestion e =
      ((Keyword.near? e.token).map fun k => "Did you mean '" ++ k.usage ++ "'?").getD
        Diagnosis.keywordsHint := by
  rw [Diagnosis.suggestion]
  simp only [hkind]
  cases Keyword.near? e.token <;> rfl

theorem usage_ne_empty (k : Keyword) : k.usage ≠ "" := by
  cases k <;> decide

theorem text_prefix_usage (k : Keyword) : k.text.toList <+: k.usage.toList := by
  cases k <;> decide

/-- A usage begins with its keyword, so it is that of one keyword only. -/
theorem usage_injective {k l : Keyword} (h : k.usage = l.usage) : k = l :=
  Completions.eq_of_goesWith (usage_ne_empty k) (.inl (text_prefix_usage k))
    (.inl (h ▸ text_prefix_usage l))

theorem question_injective {k l : Keyword}
    (h : "Did you mean '" ++ k.usage ++ "'?" = "Did you mean '" ++ l.usage ++ "'?") : k = l := by
  rw [String.append_left_inj, String.append_right_inj] at h
  exact usage_injective h

theorem ne_of_head? {s t : String} (h : s.toList.head? ≠ t.toList.head?) : s ≠ t := by
  rintro rfl
  exact h rfl

theorem hint_ne_question (usage : String) :
    Diagnosis.keywordsHint ≠ "Did you mean '" ++ usage ++ "'?" := by
  refine ne_of_head? ?_
  rw [String.toList_append, String.toList_append]
  exact fun h => absurd (Option.some.inj h) (by decide)

theorem usage_ne_hint (usage : String) : "Usage: " ++ usage ≠ Diagnosis.keywordsHint := by
  refine ne_of_head? ?_
  rw [String.toList_append]
  exact fun h => absurd (Option.some.inj h) (by decide)

theorem suggestion_eq_question_iff {e : ParseError} (hkind : e.kind = .unrecognizedCommand)
    {k : Keyword} :
    Diagnosis.suggestion e = "Did you mean '" ++ k.usage ++ "'?" ↔
      e.token ≠ "" ∧ GoesWith e.token k := by
  rw [suggestion_of_near hkind, ← Completions.near?_eq_some_iff]
  cases hnear : Keyword.near? e.token with
  | none => exact ⟨fun h => absurd h (hint_ne_question k.usage), nofun⟩
  | some l =>
    constructor
    · intro h
      rw [question_injective h]
    · intro h
      rw [Option.some.inj h]
      rfl

theorem fits_of_parse {line : String} {e : ParseError} (h : Command.parse line = .error e) :
    Fits line e (Diagnosis.suggestion e) := by
  constructor
  · intro hkind
    have hknown : e.kind ≠ .unrecognizedCommand := by
      rcases hkind with hkind | hkind <;> rw [hkind] <;> decide
    obtain ⟨k, hfirst, husage⟩ := exists_usage_of_parse h hknown
    exact ⟨k, hfirst, suggestion_of_usage hkind husage⟩
  · intro hkind
    have hknown : e.kind ≠ .unrecognizedCommand := by
      rw [hkind]
      decide
    obtain ⟨k, hfirst, husage⟩ := exists_usage_of_parse h hknown
    exact ⟨k, hfirst, suggestion_of_range hkind husage⟩
  · intro hknown
    obtain ⟨k, -, husage⟩ := exists_usage_of_parse h hknown
    cases hkind : e.kind with
    | unrecognizedCommand => exact absurd hkind hknown
    | malformedArgument =>
      rw [suggestion_of_usage (.inl hkind) husage]
      exact usage_ne_hint _
    | trailingInput =>
      rw [suggestion_of_usage (.inr hkind) husage]
      exact usage_ne_hint _
    | argumentOverflow =>
      rw [suggestion_of_range hkind husage, String.append_assoc]
      exact usage_ne_hint _
  · intro hkind k
    rw [suggestion_eq_question_iff hkind]
    exact and_congr_right fun _ =>
      (and_iff_right (token_ne_text (Faults.faulty_of_parse h) hkind k)).symm
  · intro hkind hnone
    rw [suggestion_of_near hkind]
    cases hnear : Keyword.near? e.token with
    | none => rfl
    | some k =>
      obtain ⟨hne, hk⟩ := Completions.near?_eq_some_iff.mp hnear
      exact absurd ⟨hne, token_ne_text (Faults.faulty_of_parse h) hkind k, hk⟩ (hnone k)
  · intro hkind k hcomplete
    obtain ⟨hne, hbegins⟩ := Completions.complete?_eq_some_iff.mp hcomplete
    exact (suggestion_eq_question_iff hkind).mpr ⟨hne, .inr hbegins⟩

/-- The diagnosis of a rejected line is about the line, and its suggestion fits; and no word misses
two keywords. -/
theorem suggestion_fits :
    (∀ word k l, word ≠ "" → Missed word k → Missed word l → k = l) ∧
    ∀ line e, Command.parse line = .error e →
      (Diagnosis.ofCause (.parse e)).kind = .parse ∧
      ∃ suggestion,
        (Diagnosis.ofCause (.parse e)).details?.bind Details.suggestion? = some suggestion ∧
        Fits line e suggestion := by
  refine ⟨fun word k l hne hk hl => Completions.eq_of_goesWith hne hk.2 hl.2, ?_⟩
  intro line e h
  exact ⟨rfl, _, rfl, fits_of_parse h⟩

/-- A word that runs past one keyword and no other, behind a wide blank; and a number that is too large
for the keyword in front of it. -/
theorem suggestion_fits_scanner :
    ("scanner" ≠ "" ∧ Missed "scanner" .scan ∧ ∀ k, Missed "scanner" k → .scan = k) ∧
    (∃ e, Command.parse "\u3000scanner 5" = .error e ∧ e.kind = .unrecognizedCommand ∧
      (Diagnosis.ofCause (.parse e)).details?.bind Details.suggestion? =
        some "Did you mean 'scan <seconds>'?") ∧
    ∃ e, Command.parse "test 18446744073709551616" = .error e ∧ e.kind = .argumentOverflow ∧
      ∃ k : Keyword, FirstWord "test 18446744073709551616" k.text ∧
        (Diagnosis.ofCause (.parse e)).details?.bind Details.suggestion? =
          some ("Usage: " ++ k.usage ++ " (0 to 18446744073709551615)") := by
  have hmissed : Missed "scanner" .scan := ⟨by decide, .inl (by decide)⟩
  have hscanner : Command.parse "\u3000scanner 5" = .error {
      kind := .unrecognizedCommand
      message := "Unknown command 'scanner'"
      token := "scanner"
      position := 1
      line := "\u3000scanner 5"
      keyword? := none } := by rfl
  have htest : Command.parse "test 18446744073709551616" = .error {
      kind := .argumentOverflow
      message := "Argument '18446744073709551616' for 'test' exceeds 18446744073709551615"
      token := "18446744073709551616"
      position := 5
      line := "test 18446744073709551616"
      keyword? := some "test" } := by rfl
  obtain ⟨hunique, hfits⟩ := suggestion_fits
  refine ⟨⟨by decide, hmissed, fun k => hunique _ _ _ (by decide) hmissed⟩,
    ⟨_, hscanner, rfl, ?_⟩, _, htest, rfl, ?_⟩
  · obtain ⟨-, suggestion, hsuggestion, hfit⟩ := hfits _ _ hscanner
    have hquestion := (hfit.missed rfl .scan).mpr ⟨(by decide : "scanner" ≠ ""), hmissed⟩
    rw [hsuggestion, hquestion]
    rfl
  · obtain ⟨-, suggestion, hsuggestion, hfit⟩ := hfits _ _ htest
    obtain ⟨k, hfirst, husage⟩ := hfit.range rfl
    exact ⟨k, hfirst, by rw [hsuggestion, husage]⟩

end DeviceShell.Proofs.Suggestions
