import DeviceShell.Proofs.Faults

/-!
# Where a fault stands in its line

The place of a fault and its word are counted in sixteen-bit units, while lines are cut character by
character. `Words.exists_of_mem_segmented` takes a line apart around any of its words: the text in
front has as many units as the offset says, and next to the word there are blanks or the ends of the
line. From this the units of the word are read back out of the line at its place. Only two faults have
no word: the line has none, or its one word takes a number that is missing.
-/
namespace DeviceShell.Proofs.Places

open Faults (Faulty Takes)
open Text (isBlank unitCount unitLength unitWidth unitsOf)
open Words (Apart Gap Segmented Word spanOf)

/-- A text as sixteen-bit units. -/
def units (s : String) : List Nat := s.toList.flatMap unitsOf

theorem length_units (s : String) : (units s).length = unitLength s :=
  Text.length_flatMap_unitsOf _

theorem units_append (s t : String) : units (s ++ t) = units s ++ units t := by
  unfold units
  rw [String.toList_append, List.flatMap_append]

theorem unitLength_append (s t : String) : unitLength (s ++ t) = unitLength s + unitLength t := by
  unfold unitLength
  rw [String.toList_append, Text.unitCount_append]

/-- The text stands in the line, and so many units are in front of it. -/
def Part (line : String) (position : Nat) (text : String) : Prop :=
  ∃ before after : String, line = before ++ text ++ after ∧ unitLength before = position

theorem stop_le_of_part {line text : String} {position : Nat} (h : Part line position text) :
    position + unitLength text ≤ unitLength line := by
  obtain ⟨before, after, rfl, rfl⟩ := h
  rw [unitLength_append, unitLength_append]
  omega

/-- The units of a part are those of the line from its offset on. -/
theorem extract_of_part {line text : String} {position : Nat} (h : Part line position text) :
    (units line).extract position (position + unitLength text) = units text := by
  obtain ⟨before, after, rfl, rfl⟩ := h
  have hdrop : (units (before ++ text ++ after)).drop (unitLength before) =
      units text ++ units after := by
    rw [units_append, units_append, List.append_assoc]
    exact List.drop_left' (length_units before)
  rw [List.extract_eq_take_drop, hdrop, Nat.add_sub_cancel_left]
  exact List.take_left' (length_units text)

/-- A part with nothing but blanks or the ends of the line next to it. -/
def Bounded (line : String) (position : Nat) (text : String) : Prop :=
  ∃ before after : String, line = before ++ text ++ after ∧ unitLength before = position ∧
    Apart before.toList.reverse ∧ Apart after.toList

theorem part_of_bounded {line text : String} {position : Nat} (h : Bounded line position text) :
    Part line position text := by
  obtain ⟨before, after, hline, hbefore, -, -⟩ := h
  exact ⟨before, after, hline, hbefore⟩

theorem bounded_of_mem {line : String} {ts : List Token} {t : Token}
    (h : Segmented 0 line.toList (ts.map spanOf)) (ht : t ∈ ts) :
    Word t.text.toList ∧ Bounded line t.position t.text := by
  obtain ⟨before, after, hline, hoffset, hw, hbefore, hafter⟩ :=
    Words.exists_of_mem_segmented h (List.mem_map_of_mem (f := spanOf) ht)
  change line.toList = before ++ t.text.toList ++ after at hline
  change t.position = 0 + unitCount before at hoffset
  refine ⟨hw, String.ofList before, String.ofList after, ?_, ?_, ?_, ?_⟩
  · rw [← String.toList_inj, hline]
    simp
  · rw [unitLength, String.toList_ofList]
    omega
  · rwa [String.toList_ofList]
  · rwa [String.toList_ofList]

/-- A fault points at a word, at nothing in a line without words, or behind the one word of a line
that takes a number. -/
inductive Points (ts : List Token) (e : ParseError) : Prop
  | word {t : Token} (ht : t ∈ ts) (htoken : e.token = t.text) (hplace : e.position = t.position)
  | nowhere (hts : ts = []) (htoken : e.token = "") (hplace : e.position = 0)
  | behind {head : Token} {number : String} (hts : ts = [head]) (htakes : Takes head.text number)
      (htoken : e.token = "") (hplace : e.position = (head.position + unitLength head.text : Nat))

theorem points_of_faulty {line : String} {ts : List Token} {e : ParseError}
    (h : Faulty line ts e) : Points ts e := by
  cases h with
  | blank => exact .nowhere rfl rfl rfl
  | unknown _ _ => exact .word List.mem_cons_self rfl rfl
  | trailing _ => exact .word (List.mem_cons_of_mem _ List.mem_cons_self) rfl rfl
  | missing htakes => exact .behind rfl htakes rfl rfl
  | surplus _ =>
    exact .word (List.mem_cons_of_mem _ (List.mem_cons_of_mem _ List.mem_cons_self)) rfl rfl
  | malformed _ _ => exact .word (List.mem_cons_of_mem _ List.mem_cons_self) rfl rfl
  | tooLarge _ _ _ => exact .word (List.mem_cons_of_mem _ List.mem_cons_self) rfl rfl

/-- The only word of a line takes a number and lacks it; the place is just behind this word. -/
def Unfinished (line : String) (position : Nat) : Prop :=
  ∃ lead keyword trail : String, keyword ∈ ["scan", "test"] ∧ Gap lead.toList ∧ Gap trail.toList ∧
    line = lead ++ keyword ++ trail ∧ position = unitLength (lead ++ keyword)

theorem part_of_unfinished {line : String} {position : Nat} (h : Unfinished line position) :
    Part line position "" := by
  obtain ⟨lead, keyword, trail, -, -, -, hline, hposition⟩ := h
  exact ⟨lead ++ keyword, trail, by rw [hline, String.append_empty], hposition.symm⟩

theorem takes_iff_mem {word : String} :
    (∃ number, Takes word number) ↔ word ∈ ["scan", "test"] := by
  constructor
  · rintro ⟨number, h⟩
    cases h <;> decide
  · intro h
    simp only [List.mem_cons, List.not_mem_nil, or_false] at h
    rcases h with rfl | rfl
    · exact ⟨_, .scan⟩
    · exact ⟨_, .test⟩

theorem unfinished_of_takes {line number : String} {head : Token}
    (h : Segmented 0 line.toList ([head].map spanOf)) (htakes : Takes head.text number) :
    Unfinished line (head.position + unitLength head.text) := by
  obtain ⟨lead, trail, hcs, hoffset, hlead, -, -, hend⟩ := Words.exists_of_segmented_cons h
  change line.toList = lead ++ head.text.toList ++ trail at hcs
  change head.position = 0 + unitCount lead at hoffset
  refine ⟨String.ofList lead, head.text, String.ofList trail, takes_iff_mem.mp ⟨number, htakes⟩,
    ?_, ?_, ?_, ?_⟩
  · rwa [String.toList_ofList]
  · rw [String.toList_ofList]
    exact Words.gap_of_segmented_nil hend
  · rw [← String.toList_inj, hcs]
    simp
  · rw [unitLength_append, hoffset, unitLength, unitLength, String.toList_ofList]
    omega

/-- Lines of these two shapes are refused without a word. -/
theorem token_eq_empty {line : String} {position : Nat} {e : ParseError}
    (h : Command.parse line = .error e) (hline : Gap line.toList ∨ Unfinished line position) :
    e.token = "" := by
  have hsame : ∀ (ts : List Token) {e' : ParseError}, Segmented 0 line.toList (ts.map spanOf) →
      Faulty line ts e' → e = e' := by
    intro ts e' hts hfaulty
    rw [← Words.ofLine_eq_iff.mpr hts] at hfaulty
    have hp := Faults.parse_of_faulty hfaulty
    rw [h] at hp
    exact Except.error.inj hp
  rcases hline with hgap | ⟨lead, keyword, trail, hkeyword, hlead, htrail, rfl, -⟩
  · rw [hsame [] (.gap hgap) .blank]
  · obtain ⟨number, htakes⟩ := takes_iff_mem.mpr hkeyword
    have hword : Word keyword.toList := by
      obtain ⟨k, -, -, rfl, -⟩ := Faults.takes_iff.mp htakes
      exact Grammar.word_of_keyword k
    have hcut := Words.ofLine_eq_iff.mp (Words.ofLine_single hlead hword htrail)
    rw [hsame _ hcut (.missing htakes)]

/-- The place of a fault, counted in units, is that of its word: the line reads the word there, whole
and without blanks. A fault without a word is that of a line without words, at its start, or of a
word that lacks its number, just behind it. -/
theorem place_of_rejected {line : String} {e : ParseError} (h : Command.parse line = .error e) :
    ∃ position : Nat, e.position = position ∧
      position + unitLength e.token ≤ unitLength line ∧
      (units line).extract position (position + unitLength e.token) = units e.token ∧
      (e.token ≠ "" →
        (∀ c ∈ e.token.toList, isBlank c = false) ∧ Bounded line position e.token) ∧
      (e.token = "" ↔ Gap line.toList ∧ position = 0 ∨ Unfinished line position) := by
  obtain ⟨ts, hts, hfaulty⟩ : ∃ ts, Segmented 0 line.toList (ts.map spanOf) ∧ Faulty line ts e :=
    ⟨Token.ofLine line, Words.ofLine_eq_iff.mp rfl, Faults.faulty_of_parse h⟩
  cases points_of_faulty hfaulty with
  | @word t ht htoken hplace =>
    obtain ⟨hw, hbounded⟩ := bounded_of_mem hts ht
    rw [← htoken] at hw hbounded
    have hne : e.token ≠ "" := by
      intro he
      rw [he] at hw
      exact hw.nonempty rfl
    have hpart := part_of_bounded hbounded
    exact ⟨t.position, hplace, stop_le_of_part hpart, extract_of_part hpart,
      fun _ => ⟨hw.solid, hbounded⟩, fun he => absurd he hne,
      fun hline => token_eq_empty h (hline.imp_left And.left)⟩
  | nowhere hempty htoken hplace =>
    subst hempty
    have hpart : Part line 0 e.token := by
      rw [htoken]
      exact ⟨"", line, by simp, rfl⟩
    have hgap : Gap line.toList := Words.gap_of_segmented_nil hts
    exact ⟨0, hplace, stop_le_of_part hpart, extract_of_part hpart, fun hne => absurd htoken hne,
      fun _ => .inl ⟨hgap, rfl⟩, fun _ => htoken⟩
  | behind hsingle htakes htoken hplace =>
    subst hsingle
    have hunfinished := unfinished_of_takes hts htakes
    have hpart := part_of_unfinished hunfinished
    rw [← htoken] at hpart
    exact ⟨_, hplace, stop_le_of_part hpart, extract_of_part hpart, fun hne => absurd htoken hne,
      fun _ => .inr hunfinished, fun _ => htoken⟩

/-- A word too many behind a character of two units: the place counts both of them. -/
theorem place_of_rejected_astral :
    ∃ e : ParseError, Command.parse "scan 😀 😀x" = .error e ∧ e.token = "😀x" ∧ e.position = 8 ∧
      (units "scan 😀 😀x").extract 8 11 = units "😀x" ∧ Bounded "scan 😀 😀x" 8 "😀x" := by
  have h : Command.parse "scan 😀 😀x" = .error {
      kind := .malformedArgument
      message := "Command 'scan' takes exactly one argument, got 2"
      token := "😀x"
      position := 8
      line := "scan 😀 😀x"
      keyword? := some "scan" } := by
    rfl
  obtain ⟨position, hplace, -, hreads, hword, -⟩ := place_of_rejected h
  obtain rfl : position = 8 := by
    dsimp only at hplace
    omega
  exact ⟨_, h, rfl, rfl, hreads, (hword (by decide)).2⟩

end DeviceShell.Proofs.Places
