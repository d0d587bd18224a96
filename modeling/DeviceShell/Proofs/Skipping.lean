import DeviceShell.Proofs.Grammar
import DeviceShell.Proofs.LineEnds

/-!
# Skipped lines

A text is skipped for how it looks once blanks are cut off at both ends, and parsed for its words.
The two views meet in the first word: a trimmed text begins with it. So the skipped texts are those
without words and those whose first word begins with `#`, and as no keyword does, none of them is a
command.
-/
namespace DeviceShell.Proofs.Skipping

open Batch (isSkipped)
open Text (isBlank trimChars)
open Words (Word Segmented)

theorem dropWhile_word_append {word : List Char} (hw : Word word) (rest : List Char) :
    (word ++ rest).dropWhile isBlank = word ++ rest := by
  obtain ⟨c, cs, rfl⟩ := List.exists_cons_of_ne_nil hw.nonempty
  have hc := hw.solid c List.mem_cons_self
  exact List.dropWhile_cons_of_neg (Bool.not_eq_true _ ▸ hc)

theorem word_reverse {word : List Char} (hw : Word word) : Word word.reverse :=
  ⟨fun h => hw.nonempty (List.reverse_eq_nil_iff.mp h),
    fun c hc => hw.solid c (List.mem_reverse.mp hc)⟩

/-- Dropping blanks stops at a word at the latest. -/
theorem dropWhile_append_word {word : List Char} (hw : Word word) (before : List Char) :
    (before ++ word).dropWhile isBlank = before.dropWhile isBlank ++ word := by
  rw [List.dropWhile_append]
  split
  · next hempty =>
    rw [List.isEmpty_iff.mp hempty, List.nil_append]
    simpa using dropWhile_word_append hw []
  · rfl

/-- A trimmed text begins with its first word. -/
theorem trimChars_of_segmented {offset : Nat} {cs : List Char} {w : Nat × List Char}
    {ws : List (Nat × List Char)} (h : Segmented offset cs (w :: ws)) :
    w.2 <+: trimChars cs := by
  obtain ⟨gap, rest, rfl, -, hg, hw, -, -⟩ := Words.exists_of_segmented_cons h
  refine ⟨(rest.reverse.dropWhile isBlank).reverse, ?_⟩
  rw [trimChars, List.append_assoc, List.dropWhile_append_of_pos hg, dropWhile_word_append hw,
    List.reverse_append, dropWhile_append_word (word_reverse hw), List.reverse_append,
    List.reverse_reverse]

theorem trimChars_of_segmented_nil {offset : Nat} {cs : List Char} (h : Segmented offset cs []) :
    trimChars cs = [] :=
  (Text.trimChars_eq_nil_iff cs).mpr (List.all_eq_true.mpr (Words.gap_of_segmented_nil h))

/-- Whether a text begins in some way is settled by any beginning of it that is long enough. -/
theorem hasPrefix_iff_of_prefix {p s t : String} (h : t.toList <+: s.toList)
    (hlen : p.toList.length ≤ t.toList.length) :
    Text.hasPrefix p s = true ↔ Text.hasPrefix p t = true := by
  rw [Text.hasPrefix_iff, Text.hasPrefix_iff]
  exact ⟨fun hs => List.prefix_of_prefix_length_le hs h hlen, fun ht => ht.trans h⟩

/-- A text is skipped exactly when it has no words or its first word begins with `#`. -/
theorem isSkipped_iff {text : String} :
    isSkipped text = true ↔
      ∀ t ∈ (Token.ofLine text).head?, Text.hasPrefix "#" t.text = true := by
  have hcut := Words.ofLine_eq_iff.mp (rfl : Token.ofLine text = Token.ofLine text)
  rw [isSkipped, Bool.or_eq_true, ← Text.trim_eq_empty_iff]
  cases hts : Token.ofLine text with
  | nil =>
    rw [hts] at hcut
    have hnone : Text.trim text = "" := by
      rw [Text.trim, trimChars_of_segmented_nil hcut]
    simp [hnone]
  | cons t ts =>
    rw [hts] at hcut
    obtain ⟨-, -, -, -, -, hw, -, -⟩ := Words.exists_of_segmented_cons hcut
    have hprefix : t.text.toList <+: (Text.trim text).toList := by
      rw [Text.trim, String.toList_ofList]
      exact trimChars_of_segmented hcut
    have hsome : Text.trim text ≠ "" := by
      intro hempty
      rw [hempty] at hprefix
      exact hw.nonempty (List.prefix_nil.mp hprefix)
    have hsame : Text.hasPrefix "#" (Text.trim text) = true ↔ Text.hasPrefix "#" t.text = true :=
      hasPrefix_iff_of_prefix hprefix (List.length_pos_iff.mpr hw.nonempty)
    simp [hsome, hsame]

/-- No command is lost among the skipped lines. -/
theorem isSkipped_of_parse {text : String} {c : Command} (h : Command.parse text = .ok c) :
    isSkipped text = false := by
  obtain ⟨head, rest, k, hts, hk, -⟩ :=
    Grammar.ofTokens_eq_ok_iff.mp (Grammar.parse_eq_ok_iff_ofTokens.mp h)
  rw [Bool.eq_false_iff]
  intro hskip
  have hmark := isSkipped_iff.mp hskip head (by rw [hts]; rfl)
  rw [hk] at hmark
  cases k <;> cases hmark

end DeviceShell.Proofs.Skipping
