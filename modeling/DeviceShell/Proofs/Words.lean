import DeviceShell.Command.Token

/-!
# Gaps and words of a line

A text is cut in exactly one way into gaps of blanks and words without blanks, where every word is
as long as it can be. `Segmented` states the cut piece by piece from the left, without the scanner.
The scanner works from the right; `segmented_iff` says that it finds this cut and no other, offsets
in units included.
-/
namespace DeviceShell.Proofs.Words

open Text (isBlank unitWidth unitCount unitLength unitWidth_pos)

/-- A run of blanks, possibly empty. -/
def Gap (cs : List Char) : Prop := ∀ c ∈ cs, isBlank c = true

/-- A word: at least one character and no blank. -/
structure Word (cs : List Char) : Prop where
  nonempty : cs ≠ []
  solid : ∀ c ∈ cs, isBlank c = false

/-- What may stand behind a word: the end, or a blank and anything. -/
def Apart : List Char → Prop
  | [] => True
  | c :: _ => isBlank c = true

/-- The words of a text that starts at an offset, read off piece by piece. -/
inductive Segmented : Nat → List Char → List (Nat × List Char) → Prop
  | gap {offset : Nat} {gap : List Char} (hg : Gap gap) : Segmented offset gap []
  | word {offset : Nat} {gap word rest : List Char} {ws : List (Nat × List Char)}
      (hg : Gap gap) (hw : Word word) (hr : Apart rest)
      (h : Segmented (offset + unitCount gap + unitCount word) rest ws) :
      Segmented offset (gap ++ word ++ rest) ((offset + unitCount gap, word) :: ws)

theorem gap_nil : Gap [] := fun _ h => absurd h List.not_mem_nil

theorem gap_cons {c : Char} {cs : List Char} (hc : isBlank c = true) (h : Gap cs) :
    Gap (c :: cs) := List.forall_mem_cons.mpr ⟨hc, h⟩

theorem apart_of_gap {cs : List Char} (h : Gap cs) : Apart cs := by
  cases cs with
  | nil => trivial
  | cons c cs => exact h c List.mem_cons_self

theorem apart_append {gap rest : List Char} (hg : Gap gap) (hne : gap ≠ []) :
    Apart (gap ++ rest) := by
  cases gap with
  | nil => exact absurd rfl hne
  | cons c cs => exact hg c List.mem_cons_self

theorem word_singleton {c : Char} (hc : isBlank c = false) : Word [c] :=
  ⟨List.cons_ne_nil _ _, by simpa using hc⟩

theorem word_cons {c : Char} {cs : List Char} (hc : isBlank c = false) (h : Word cs) :
    Word (c :: cs) := ⟨List.cons_ne_nil _ _, List.forall_mem_cons.mpr ⟨hc, h.solid⟩⟩

theorem words_cons_blank {offset : Nat} {c : Char} {cs : List Char} (hc : isBlank c = true) :
    Token.words offset (c :: cs) = Token.words (offset + unitWidth c) cs := by
  simp only [Token.words, hc, ↓reduceIte]

theorem words_cons_solid {offset : Nat} {c : Char} {cs : List Char} (hc : isBlank c = false) :
    Token.words offset (c :: cs) =
      Token.attach c offset (Token.words (offset + unitWidth c) cs) := by
  simp only [Token.words, hc, Bool.false_eq_true, ↓reduceIte]

theorem words_gap_append {offset : Nat} {gap rest : List Char} (hg : Gap gap) :
    Token.words offset (gap ++ rest) = Token.words (offset + unitCount gap) rest := by
  induction gap generalizing offset with
  | nil => simp
  | cons c cs ih =>
    obtain ⟨hc, hcs⟩ := List.forall_mem_cons.mp hg
    rw [List.cons_append, words_cons_blank hc, ih hcs, Text.unitCount_cons, Nat.add_assoc]

theorem mem_attach {c : Char} {offset : Nat} {ws : List (Nat × List Char)} {w : Nat × List Char}
    (h : w ∈ Token.attach c offset ws) : w.1 = offset ∨ w ∈ ws := by
  cases ws with
  | nil =>
    rw [Token.attach, List.mem_singleton] at h
    exact .inl (congrArg Prod.fst h)
  | cons v ws =>
    rw [Token.attach] at h
    split at h
    · rcases List.mem_cons.mp h with rfl | hmem
      · exact .inl rfl
      · exact .inr (List.mem_cons_of_mem _ hmem)
    · rcases List.mem_cons.mp h with rfl | hmem
      · exact .inl rfl
      · exact .inr hmem

/-- No word starts before the text does. -/
theorem offset_le_of_mem_words {offset : Nat} {cs : List Char} {w : Nat × List Char}
    (h : w ∈ Token.words offset cs) : offset ≤ w.1 := by
  induction cs generalizing offset with
  | nil => exact absurd h List.not_mem_nil
  | cons c cs ih =>
    cases hc : isBlank c with
    | true =>
      rw [words_cons_blank hc] at h
      have := ih h
      omega
    | false =>
      rw [words_cons_solid hc] at h
      rcases mem_attach h with he | hmem
      · exact Nat.le_of_eq he.symm
      · have := ih hmem
        omega

/-- Behind a word the next one starts later than at once. -/
theorem offset_lt_of_mem_words {offset : Nat} {cs : List Char} {w : Nat × List Char}
    (ha : Apart cs) (h : w ∈ Token.words offset cs) : offset < w.1 := by
  cases cs with
  | nil => exact absurd h List.not_mem_nil
  | cons c cs =>
    rw [words_cons_blank ha] at h
    have := offset_le_of_mem_words h
    have := unitWidth_pos c
    omega

theorem attach_of_later {c : Char} {offset : Nat} {ws : List (Nat × List Char)}
    (h : ∀ w ∈ ws, offset + unitWidth c < w.1) :
    Token.attach c offset ws = (offset, [c]) :: ws := by
  cases ws with
  | nil => rfl
  | cons v ws =>
    have hv := h v List.mem_cons_self
    rw [Token.attach, if_neg (by omega)]

/-- A word that nothing continues is found whole. -/
theorem words_word_append {offset : Nat} {word rest : List Char} (hw : Word word)
    (hr : Apart rest) :
    Token.words offset (word ++ rest) =
      (offset, word) :: Token.words (offset + unitCount word) rest := by
  induction word generalizing offset with
  | nil => exact absurd rfl hw.nonempty
  | cons c cs ih =>
    obtain ⟨hc, hcs⟩ := List.forall_mem_cons.mp hw.solid
    rw [List.cons_append, words_cons_solid hc]
    cases cs with
    | nil =>
      -- The last character of the word: every later word starts behind a blank.
      rw [List.nil_append, Text.unitCount_cons, Text.unitCount_nil, Nat.add_zero]
      exact attach_of_later fun w hmem => offset_lt_of_mem_words hr hmem
    | cons d ds =>
      rw [ih ⟨List.cons_ne_nil _ _, hcs⟩, Token.attach, if_pos rfl, Nat.add_assoc,
        ← Text.unitCount_cons]

theorem words_of_segmented {offset : Nat} {cs : List Char} {ws : List (Nat × List Char)}
    (h : Segmented offset cs ws) : Token.words offset cs = ws := by
  induction h with
  | @gap offset gap hg =>
    rw [← List.append_nil gap, words_gap_append hg]
    rfl
  | word hg hw hr h ih => rw [List.append_assoc, words_gap_append hg, words_word_append hw hr, ih]

/-- A word may stand at the very start. -/
theorem segmented_word {offset : Nat} {word rest : List Char} {ws : List (Nat × List Char)}
    (hw : Word word) (hr : Apart rest) (h : Segmented (offset + unitCount word) rest ws) :
    Segmented offset (word ++ rest) ((offset, word) :: ws) := by
  rw [← Nat.add_zero offset, ← Text.unitCount_nil] at h
  exact .word gap_nil hw hr h

theorem segmented_cons_blank {offset : Nat} {c : Char} {cs : List Char}
    {ws : List (Nat × List Char)} (hc : isBlank c = true)
    (h : Segmented (offset + unitWidth c) cs ws) : Segmented offset (c :: cs) ws := by
  cases h with
  | gap hg => exact .gap (gap_cons hc hg)
  | @word _ gap word rest ws hg hw hr h =>
    have he : offset + unitWidth c + unitCount gap = offset + unitCount (c :: gap) := by
      rw [Text.unitCount_cons, Nat.add_assoc]
    rw [he] at h ⊢
    exact .word (gap_cons hc hg) hw hr h

/-- A character that is not blank joins the word behind it, or is a word of its own. -/
theorem segmented_cons_solid {offset : Nat} {c : Char} {cs : List Char}
    {ws : List (Nat × List Char)} (hc : isBlank c = false)
    (h : Segmented (offset + unitWidth c) cs ws) :
    Segmented offset (c :: cs) (Token.attach c offset ws) := by
  cases h with
  | gap hg => exact segmented_word (word_singleton hc) (apart_of_gap hg) (.gap hg)
  | @word _ gap word rest ws hg hw hr h =>
    -- With a gap in between the character stands alone, without one it opens the next word.
    by_cases hgap : gap = []
    · subst hgap
      rw [Text.unitCount_nil, Nat.add_zero] at h ⊢
      rw [Token.attach, if_pos rfl]
      refine segmented_word (word_cons hc hw) hr ?_
      rwa [Text.unitCount_cons, ← Nat.add_assoc]
    · have hpos : 0 < unitCount gap := by
        obtain ⟨d, ds, rfl⟩ := List.exists_cons_of_ne_nil hgap
        have := unitWidth_pos d
        rw [Text.unitCount_cons]
        omega
      have hrest : Apart (gap ++ word ++ rest) := by
        rw [List.append_assoc]
        exact apart_append hg hgap
      rw [Token.attach, if_neg (by omega)]
      refine segmented_word (word_singleton hc) hrest ?_
      rw [Text.unitCount_cons, Text.unitCount_nil, Nat.add_zero]
      exact .word hg hw hr h

theorem segmented_words (offset : Nat) (cs : List Char) :
    Segmented offset cs (Token.words offset cs) := by
  induction cs generalizing offset with
  | nil => exact .gap gap_nil
  | cons c cs ih =>
    cases hc : isBlank c with
    | true =>
      rw [words_cons_blank hc]
      exact segmented_cons_blank hc (ih _)
    | false =>
      rw [words_cons_solid hc]
      exact segmented_cons_solid hc (ih _)

/-- A text has one cut, and the scanner finds it. -/
theorem segmented_iff {offset : Nat} {cs : List Char} {ws : List (Nat × List Char)} :
    Segmented offset cs ws ↔ Token.words offset cs = ws :=
  ⟨words_of_segmented, fun h => h ▸ segmented_words offset cs⟩

theorem gap_of_segmented_nil {offset : Nat} {cs : List Char} (h : Segmented offset cs []) :
    Gap cs := by
  cases h with
  | gap hg => exact hg

theorem exists_of_segmented_cons {offset : Nat} {cs : List Char} {w : Nat × List Char}
    {ws : List (Nat × List Char)} (h : Segmented offset cs (w :: ws)) :
    ∃ gap rest : List Char, cs = gap ++ w.2 ++ rest ∧ w.1 = offset + unitCount gap ∧ Gap gap ∧
      Word w.2 ∧ Apart rest ∧ Segmented (offset + unitCount gap + unitCount w.2) rest ws := by
  cases h with
  | @word _ gap word rest _ hg hw hr h => exact ⟨gap, rest, rfl, rfl, hg, hw, hr, h⟩

/-- Two words never touch. -/
theorem gap_ne_nil_of_apart {gap word rest : List Char} (hw : Word word)
    (ha : Apart (gap ++ word ++ rest)) : gap ≠ [] := by
  rintro rfl
  obtain ⟨c, cs, rfl⟩ := List.exists_cons_of_ne_nil hw.nonempty
  have hc : isBlank c = true := ha
  rw [hw.solid c List.mem_cons_self] at hc
  exact Bool.false_ne_true hc

theorem apart_append_of_apart {cs : List Char} (h : Apart cs) (hne : cs ≠ []) (rest : List Char) :
    Apart (cs ++ rest) := by
  obtain ⟨c, cs, rfl⟩ := List.exists_cons_of_ne_nil hne
  exact h

theorem apart_reverse_of_gap {gap : List Char} (h : Gap gap) : Apart gap.reverse :=
  apart_of_gap fun c hc => h c (List.mem_reverse.mp hc)

/-- What a text holds around one of its words. -/
theorem exists_of_mem_segmented {offset : Nat} {cs : List Char} {ws : List (Nat × List Char)}
    {w : Nat × List Char} (h : Segmented offset cs ws) (hm : w ∈ ws) :
    ∃ before after : List Char, cs = before ++ w.2 ++ after ∧ w.1 = offset + unitCount before ∧
      Word w.2 ∧ Apart before.reverse ∧ Apart after := by
  induction h with
  | gap hg => exact absurd hm List.not_mem_nil
  | @word offset gap word rest ws hg hw hr h ih =>
    rcases List.mem_cons.mp hm with rfl | hm
    · exact ⟨gap, rest, rfl, rfl, hw, apart_reverse_of_gap hg, hr⟩
    · obtain ⟨before, after, rfl, hoffset, hw', hbefore, hafter⟩ := ih hm
      -- The word in front does not touch this one, so a blank stands between them.
      have hne : before ≠ [] := gap_ne_nil_of_apart hw' hr
      refine ⟨gap ++ word ++ before, after, by simp only [List.append_assoc], ?_, hw', ?_, hafter⟩
      · rw [hoffset, Text.unitCount_append, Text.unitCount_append]
        omega
      · rw [List.reverse_append]
        exact apart_append_of_apart hbefore (List.reverse_ne_nil_iff.mpr hne) _

/-- No word goes beyond the end of the text. -/
theorem stop_le_of_mem_segmented {offset : Nat} {cs : List Char} {ws : List (Nat × List Char)}
    {w : Nat × List Char} (h : Segmented offset cs ws) (hm : w ∈ ws) :
    w.1 + unitCount w.2 ≤ offset + unitCount cs := by
  obtain ⟨before, after, rfl, hoffset, -, -, -⟩ := exists_of_mem_segmented h hm
  rw [hoffset, Text.unitCount_append, Text.unitCount_append]
  omega

/-- Where a word starts and its characters. -/
def spanOf (t : Token) : Nat × List Char := (t.position, t.text.toList)

theorem ofLine_eq_iff {line : String} {ts : List Token} :
    Token.ofLine line = ts ↔ Segmented 0 line.toList (ts.map spanOf) := by
  have hback : ∀ ws : List (Nat × List Char),
      (ws.map fun w => (⟨String.ofList w.2, w.1⟩ : Token)).map spanOf = ws := by
    intro ws
    simp [spanOf, Function.comp_def]
  have hforth : ∀ us : List Token,
      (us.map spanOf).map (fun w => (⟨String.ofList w.2, w.1⟩ : Token)) = us := by
    intro us
    simp [spanOf, Function.comp_def]
  rw [segmented_iff]
  constructor
  · rintro rfl
    exact (hback _).symm
  · intro h
    have hmap := congrArg (List.map fun w => (⟨String.ofList w.2, w.1⟩ : Token)) h
    rw [hforth] at hmap
    exact hmap

theorem ofLine_single {lead word trail : String} (hl : Gap lead.toList) (hw : Word word.toList)
    (ht : Gap trail.toList) :
    Token.ofLine (lead ++ word ++ trail) = [⟨word, unitLength lead⟩] := by
  rw [ofLine_eq_iff, String.toList_append, String.toList_append]
  have h : Segmented 0 (lead.toList ++ word.toList ++ trail.toList)
      [(0 + unitCount lead.toList, word.toList)] := .word hl hw (apart_of_gap ht) (.gap ht)
  rw [Nat.zero_add] at h
  exact h

theorem ofLine_pair {lead word gap other trail : String} (hl : Gap lead.toList)
    (hw : Word word.toList) (hg : Gap gap.toList) (hne : gap.toList ≠ []) (ho : Word other.toList)
    (ht : Gap trail.toList) :
    Token.ofLine (lead ++ word ++ gap ++ other ++ trail) =
      [⟨word, unitLength lead⟩, ⟨other, unitLength (lead ++ word ++ gap)⟩] := by
  rw [ofLine_eq_iff]
  have hrest : Apart (gap.toList ++ other.toList ++ trail.toList) := by
    rw [List.append_assoc]
    exact apart_append hg hne
  have h : Segmented 0 (lead.toList ++ word.toList ++ (gap.toList ++ other.toList ++ trail.toList))
      [(0 + unitCount lead.toList, word.toList),
        (0 + unitCount lead.toList + unitCount word.toList + unitCount gap.toList,
          other.toList)] :=
    .word hl hw hrest (.word hg ho (apart_of_gap ht) (.gap ht))
  simpa [spanOf, unitLength, Nat.add_assoc] using h

theorem exists_of_ofLine_single {line : String} {t : Token} (h : Token.ofLine line = [t]) :
    ∃ lead trail : String, Gap lead.toList ∧ Gap trail.toList ∧
      line = lead ++ t.text ++ trail := by
  obtain ⟨lead, trail, hcs, -, hl, -, -, hend⟩ := exists_of_segmented_cons (ofLine_eq_iff.mp h)
  refine ⟨String.ofList lead, String.ofList trail, ?_, ?_, ?_⟩
  · rwa [String.toList_ofList]
  · rw [String.toList_ofList]
    exact gap_of_segmented_nil hend
  · rw [← String.toList_inj, hcs]
    simp [spanOf]

theorem exists_of_ofLine_pair {line : String} {t u : Token} (h : Token.ofLine line = [t, u]) :
    ∃ lead gap trail : String, Gap lead.toList ∧ Gap gap.toList ∧ gap.toList ≠ [] ∧
      Gap trail.toList ∧ line = lead ++ t.text ++ gap ++ u.text ++ trail := by
  obtain ⟨lead, rest, hcs, -, hl, -, hr, hrest⟩ := exists_of_segmented_cons (ofLine_eq_iff.mp h)
  obtain ⟨gap, trail, rfl, -, hg, hu, -, hend⟩ := exists_of_segmented_cons hrest
  refine ⟨String.ofList lead, String.ofList gap, String.ofList trail, ?_, ?_, ?_, ?_, ?_⟩
  · rwa [String.toList_ofList]
  · rwa [String.toList_ofList]
  · rw [String.toList_ofList]
    exact gap_ne_nil_of_apart hu hr
  · rw [String.toList_ofList]
    exact gap_of_segmented_nil hend
  · rw [← String.toList_inj, hcs]
    simp [spanOf]

end DeviceShell.Proofs.Words
