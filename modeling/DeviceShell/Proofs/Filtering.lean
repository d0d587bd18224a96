import DeviceShell.Proofs.Faults
import DeviceShell.Proofs.Pieces
import DeviceShell.Proofs.Skipping
import Mathlib.Data.List.Basic

/-!
# The filter of an input and the reader of a line

The filter judges a piece of an input by how it looks between its outer blanks, the reader by its
words. `Ignored` says in the terms of the reader that a piece is no line of the shell: it is rejected
for having no words, or for a first word that begins with `#`. Filter and reader agree on every piece,
so what is left out is exactly what is ignored, and no command is.

Only the first word makes a comment. A word that begins with `#` behind a keyword is an argument like
any other, and its line is kept and reported for it.
-/
namespace DeviceShell.Proofs.Filtering

open Batch (Line isSkipped split)
open Faults (Faulty Takes loneWords)
open Pieces (Pieced)

/-- The reader does not know the text for a command, for want of a word or at a mark of a comment. -/
def Ignored (text : String) : Prop :=
  ∃ e, Command.parse text = .error e ∧ e.kind = .unrecognizedCommand ∧
    (e.token = "" ∨ Text.hasPrefix "#" e.token = true)

theorem not_mem_loneWords_of_mark {word : String} (h : Text.hasPrefix "#" word = true) :
    word ∉ loneWords := by
  intro hmem
  have hall : loneWords.all (fun w => !Text.hasPrefix "#" w) = true := by decide
  have hword := List.all_eq_true.mp hall word hmem
  rw [h] at hword
  cases hword

theorem not_takes_of_mark {word : String} (h : Text.hasPrefix "#" word = true) (number : String) :
    ¬ Takes word number := by
  rintro (_ | _) <;> cases h

/-- No number begins with the mark of a comment. -/
theorem not_run_of_mark {word : String} (h : Text.hasPrefix "#" word = true) :
    ¬ Positional.Run word.toList := by
  intro hrun
  obtain ⟨rest, hrest⟩ := Text.hasPrefix_iff.mp h
  have hdigit := hrun.mem_digits '#' (hrest ▸ List.mem_append_left rest (List.mem_singleton_self _))
  exact absurd hdigit (by decide)

theorem text_ne_empty {line : String} {head : Token} {rest : List Token}
    (h : Token.ofLine line = head :: rest) : head.text ≠ "" := by
  intro hempty
  obtain ⟨-, -, -, -, -, hword, -, -⟩ := Words.exists_of_segmented_cons (Words.ofLine_eq_iff.mp h)
  exact hword.nonempty (String.toList_eq_nil_iff.mpr hempty)

theorem ignored_of_first {text : String}
    (h : ∀ t ∈ (Token.ofLine text).head?, Text.hasPrefix "#" t.text = true) : Ignored text := by
  cases hts : Token.ofLine text with
  | nil =>
    have hfaulty : Faulty text [] _ := .blank
    exact ⟨_, Faults.parse_of_faulty (hts ▸ hfaulty), rfl, .inl rfl⟩
  | cons head rest =>
    have hmark := h head (by rw [hts]; rfl)
    have hfaulty : Faulty text (head :: rest) _ :=
      .unknown (not_mem_loneWords_of_mark hmark) (not_takes_of_mark hmark)
    exact ⟨_, Faults.parse_of_faulty (hts ▸ hfaulty), rfl, .inr hmark⟩

theorem first_of_ignored {text : String} (h : Ignored text) :
    ∀ t ∈ (Token.ofLine text).head?, Text.hasPrefix "#" t.text = true := by
  obtain ⟨e, he, hkind, htoken⟩ := h
  have hfaulty := Faults.faulty_of_parse he
  intro t ht
  obtain ⟨rest, hts⟩ := List.head?_eq_some_iff.mp ht
  rw [hts] at hfaulty
  cases hfaulty with
  | unknown hlone htakes => exact htoken.resolve_left (text_ne_empty hts)
  | _ => cases hkind

/-- The filter leaves a text out exactly when the reader ignores it. -/
theorem isSkipped_iff_ignored {text : String} : isSkipped text = true ↔ Ignored text := by
  rw [Skipping.isSkipped_iff]
  exact ⟨ignored_of_first, first_of_ignored⟩

/-- Under its own number a piece is kept alone, or nothing is. -/
theorem filter_split {input : String} {texts : List String}
    (h : Pieced input.toList (texts.map String.toList)) {i : Nat} {text : String}
    (hi : texts[i]? = some text) :
    (split input).filter (fun line : Line => line.number = i + 1) =
      if isSkipped text then [] else [⟨i + 1, text⟩] := by
  rw [Pieces.split_of_pieced h, List.filter_comm, LineEnds.filter_number hi]
  cases hs : isSkipped text <;> simp [hs]

theorem mem_split_iff {input : String} {texts : List String}
    (h : Pieced input.toList (texts.map String.toList)) {i : Nat} {text : String}
    (hi : texts[i]? = some text) :
    (⟨i + 1, text⟩ : Line) ∈ split input ↔ isSkipped text = false := by
  have hplace : (⟨i + 1, text⟩ : Line) ∈ split input ↔
      ⟨i + 1, text⟩ ∈ (split input).filter (fun line : Line => line.number = i + 1) := by
    rw [List.mem_filter]
    simp
  rw [hplace, filter_split h hi]
  cases isSkipped text <;> simp

theorem outcomes_of_accepted {input : String} {texts : List String}
    (h : Pieced input.toList (texts.map String.toList)) {i : Nat} {text : String} {c : Command}
    (hi : texts[i]? = some text) (hc : Command.parse text = .ok c) :
    (Batch.parse (split input)).filter (fun o : Batch.Outcome => o.line.number = i + 1) =
      [⟨⟨i + 1, text⟩, .ok c⟩] := by
  have hkept := Skipping.isSkipped_of_parse hc
  have hlines := filter_split h hi
  rw [hkept, if_neg Bool.false_ne_true] at hlines
  rw [Batch.parse, List.filter_map]
  simp only [Function.comp_def]
  rw [hlines, List.map_singleton, hc]

theorem not_ignored_of_mem_split {input : String} {line : Line} (h : line ∈ split input) :
    ¬ Ignored line.text := by
  rw [← isSkipped_iff_ignored]
  have hkept := (List.mem_filter.mp h).2
  rwa [Bool.not_eq_true', ← Bool.not_eq_true] at hkept

/-- A fault at a mark of a comment is about the first word, or about one behind a keyword. -/
theorem kind_of_marked {text : String} {e : ParseError} (h : Command.parse text = .error e)
    (hmark : Text.hasPrefix "#" e.token = true) :
    e.kind = .unrecognizedCommand ∨ e.kind = .trailingInput ∨ e.kind = .malformedArgument := by
  have hfaulty := Faults.faulty_of_parse h
  generalize Token.ofLine text = ts at hfaulty
  cases hfaulty with
  | tooLarge htakes hrun hlimit => exact absurd hrun (not_run_of_mark hmark)
  | trailing _ => exact .inr (.inl rfl)
  | blank => exact .inl rfl
  | unknown _ _ => exact .inl rfl
  | _ => exact .inr (.inr rfl)

/-- Of the pieces of an input exactly the ignored ones are left out. Every command among them has one
outcome under its own number, and what is reported is never an empty line or a comment; a word with
the mark of a comment is reported only behind a keyword. -/
theorem filter_agrees_with_reader (input : String) :
    ∃ texts : List String,
      (∀ ps, Pieced input.toList ps ↔ ps = texts.map String.toList) ∧
      (∀ (i : Nat) (text : String), texts[i]? = some text →
        ((⟨i + 1, text⟩ : Line) ∉ split input ↔ Ignored text) ∧
        ∀ c, Command.parse text = .ok c →
          (Batch.parse (split input)).filter (fun o : Batch.Outcome => o.line.number = i + 1) =
            [⟨⟨i + 1, text⟩, .ok c⟩]) ∧
      ∀ o ∈ Batch.parse (split input), ∀ e, o.result = .error e →
        (e.kind = .unrecognizedCommand → e.token ≠ "" ∧ Text.hasPrefix "#" e.token = false) ∧
        (Text.hasPrefix "#" e.token = true →
          e.kind = .trailingInput ∨ e.kind = .malformedArgument) := by
  have hback : ((Batch.pieces input.toList).map String.ofList).map String.toList =
      Batch.pieces input.toList := by
    rw [List.map_map]
    simp [Function.comp_def]
  have hpieced : Pieced input.toList
      (((Batch.pieces input.toList).map String.ofList).map String.toList) := by
    rw [hback]
    exact Pieces.pieced_pieces _
  refine ⟨(Batch.pieces input.toList).map String.ofList, ?_, ?_, ?_⟩
  · intro ps
    rw [Pieces.pieced_iff, hback]
    exact eq_comm
  · intro i text hi
    refine ⟨?_, fun c hc => outcomes_of_accepted hpieced hi hc⟩
    rw [mem_split_iff hpieced hi, Bool.not_eq_false]
    exact isSkipped_iff_ignored
  · intro o ho e he
    obtain ⟨line, hline, rfl⟩ := List.mem_map.mp ho
    have hnot := not_ignored_of_mem_split hline
    have hfirst : e.kind = .unrecognizedCommand →
        ¬ (e.token = "" ∨ Text.hasPrefix "#" e.token = true) :=
      fun hkind htoken => hnot ⟨e, he, hkind, htoken⟩
    constructor
    · intro hkind
      obtain ⟨hempty, hmark⟩ := not_or.mp (hfirst hkind)
      exact ⟨hempty, Bool.eq_false_iff.mpr hmark⟩
    · intro hmark
      exact (kind_of_marked he hmark).resolve_left fun hkind => hfirst hkind (.inr hmark)

/-- A mark of a comment behind a keyword is reported. -/
theorem mark_behind_keyword :
    ¬ ∀ o ∈ Batch.parse (split "exit # now"), ∀ e, o.result = .error e →
      ¬ (e.kind = .unrecognizedCommand ∧ e.token = "") ∧ Text.hasPrefix "#" e.token = false := by
  intro h
  have hsplit : split "exit # now" = [⟨1, "exit # now"⟩] := by decide
  have hparse : Command.parse "exit # now" = .error {
      kind := .trailingInput
      message := "Command 'exit' takes no arguments, found '#'"
      token := "#"
      position := 5
      line := "exit # now"
      keyword? := some "exit" } := by
    rfl
  rw [hsplit, Batch.parse, List.map_singleton, hparse] at h
  have hmark := (h _ (List.mem_singleton_self _) _ rfl).2
  exact absurd hmark (by decide)

end DeviceShell.Proofs.Filtering
