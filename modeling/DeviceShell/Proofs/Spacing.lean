import DeviceShell.Proofs.Faults

/-!
# Blanks between words carry no meaning

How a line is spaced decides where its words stand and nothing else. `Spaced` writes a line out of
words and gaps; two lines are written with the same words exactly when the scanner finds the same
texts in them (`texts_eq_iff_spaced`). Reading commutes with forgetting where words stand, so such
lines are accepted alike or refused alike. A refusal may differ in its place and in the line it
repeats, and in nothing that is told besides.
-/
namespace DeviceShell.Proofs.Spacing

open Words (Apart Gap Segmented Word spanOf)

/-- A line written with these words: gaps stand in front, between and behind, and words do not
touch. -/
inductive Spaced : List (List Char) → List Char → Prop
  | gap {gap : List Char} (hg : Gap gap) : Spaced [] gap
  | word {gap word rest : List Char} {words : List (List Char)} (hg : Gap gap) (hw : Word word)
      (hr : Apart rest) (h : Spaced words rest) : Spaced (word :: words) (gap ++ word ++ rest)

/-- The texts of the words of a line. -/
def texts (line : String) : List String := (Token.ofLine line).map Token.text

theorem spaced_of_segmented {offset : Nat} {cs : List Char} {ws : List (Nat × List Char)}
    (h : Segmented offset cs ws) : Spaced (ws.map Prod.snd) cs := by
  induction h with
  | gap hg => exact .gap hg
  | word hg hw hr _ ih => exact .word hg hw hr ih

theorem segmented_of_spaced {words : List (List Char)} {cs : List Char} (h : Spaced words cs)
    (offset : Nat) : ∃ ws, Segmented offset cs ws ∧ ws.map Prod.snd = words := by
  induction h generalizing offset with
  | gap hg => exact ⟨[], .gap hg, rfl⟩
  | @word gap word rest words hg hw hr _ ih =>
    obtain ⟨ws, hws, rfl⟩ := ih (offset + Text.unitCount gap + Text.unitCount word)
    exact ⟨_, .word hg hw hr hws, rfl⟩

/-- A line is written with one list of words, those that the scanner finds. -/
theorem spaced_iff {line : String} {words : List (List Char)} :
    Spaced words line.toList ↔ (texts line).map String.toList = words := by
  have htexts : (texts line).map String.toList = (Token.words 0 line.toList).map Prod.snd := by
    simp [texts, Token.ofLine, Function.comp_def]
  rw [htexts]
  constructor
  · intro h
    obtain ⟨ws, hws, rfl⟩ := segmented_of_spaced h 0
    rw [Words.words_of_segmented hws]
  · rintro rfl
    exact spaced_of_segmented (Words.segmented_words 0 line.toList)

theorem texts_eq_iff_spaced {a b : String} :
    texts a = texts b ↔ ∃ words, Spaced words a.toList ∧ Spaced words b.toList := by
  constructor
  · intro h
    exact ⟨_, spaced_iff.mpr rfl, spaced_iff.mpr (by rw [h])⟩
  · rintro ⟨words, ha, hb⟩
    have hmap := (spaced_iff.mp ha).trans (spaced_iff.mp hb).symm
    exact (List.map_inj_right fun _ _ => String.toList_inj.mp).mp hmap

/-- A word of which only the text is left. -/
def unplaced (t : Token) : Token := ⟨t.text, 0⟩

/-- A rejection without the places of its words. -/
def placeless : Rejection → Rejection
  | .blank => .blank
  | .unknownKeyword word => .unknownKeyword (unplaced word)
  | .trailing k word => .trailing k (unplaced word)
  | .missingArgument k _ => .missingArgument k 0
  | .surplus k extra count => .surplus k (unplaced extra) count
  | .notANumber k word => .notANumber k (unplaced word)
  | .tooLarge k word => .tooLarge k (unplaced word)

theorem ofArguments_unplaced (k : Keyword) (head : Token) (rest : List Token) :
    (Command.ofArguments k (unplaced head) (rest.map unplaced)).mapError placeless =
      (Command.ofArguments k head rest).mapError placeless := by
  unfold Command.ofArguments
  cases k.form with
  | bare command =>
    cases rest with
    | nil => rfl
    | cons word rest => rfl
  | counted argument build =>
    rcases rest with _ | ⟨word, _ | ⟨extra, more⟩⟩
    · rfl
    · have htext : (unplaced word).text = word.text := rfl
      simp only [List.map_cons, List.map_nil, htext]
      cases Numeral.read word.text <;> rfl
    · simp only [List.map_cons, List.length_map]
      rfl

/-- What is read from words depends on where they stand only for the place that a rejection names. -/
theorem ofTokens_unplaced (ts : List Token) :
    (Command.ofTokens (ts.map unplaced)).mapError placeless =
      (Command.ofTokens ts).mapError placeless := by
  cases ts with
  | nil => rfl
  | cons head rest =>
    have htext : (unplaced head).text = head.text := rfl
    rw [List.map_cons, Command.ofTokens, Command.ofTokens, htext]
    cases Keyword.ofText? head.text with
    | none => rfl
    | some k => exact ofArguments_unplaced k head rest

/-- Of the tokens of a line only the texts are left. -/
theorem map_unplaced_eq {ts us : List Token} (h : ts.map Token.text = us.map Token.text) :
    ts.map unplaced = us.map unplaced := by
  have hmap : ∀ ts : List Token, ts.map unplaced = (ts.map Token.text).map (⟨·, 0⟩) := by
    intro ts
    rw [List.map_map]
    rfl
  rw [hmap, hmap, h]

/-- Two verdicts that agree in all but the place and the line that an error repeats. -/
inductive Alike : Except ParseError Command → Except ParseError Command → Prop
  | accepted (c : Command) : Alike (.ok c) (.ok c)
  | refused (e : ParseError) (position : Int) (line : String) :
      Alike (.error e) (.error { e with position := position, line := line })

/-- Rejections that differ only in places are reported alike. -/
theorem ofRejection_of_placeless {r r' : Rejection} (h : placeless r = placeless r')
    (line line' : String) :
    ParseError.ofRejection line' r' = { ParseError.ofRejection line r with
      position := r'.token.position, line := line' } := by
  have hkept : ∀ r : Rejection, (placeless r).kind = r.kind ∧ (placeless r).message = r.message ∧
      (placeless r).token.text = r.token.text ∧ (placeless r).keyword? = r.keyword? := by
    intro r
    cases r <;> exact ⟨rfl, rfl, rfl, rfl⟩
  obtain ⟨hkind, hmessage, htoken, hkeyword⟩ := hkept r
  obtain ⟨hkind', hmessage', htoken', hkeyword'⟩ := hkept r'
  rw [h] at hkind hmessage htoken hkeyword
  rw [ParseError.ofRejection, ParseError.ofRejection, ParseError.mk.injEq]
  exact ⟨hkind'.symm.trans hkind, hmessage'.symm.trans hmessage, htoken'.symm.trans htoken, rfl, rfl,
    congrArg (Option.map Keyword.text) (hkeyword'.symm.trans hkeyword)⟩

theorem alike_of_texts_eq {a b : String} (h : texts a = texts b) :
    Alike (Command.parse a) (Command.parse b) := by
  have hread : (Command.ofTokens (Token.ofLine a)).mapError placeless =
      (Command.ofTokens (Token.ofLine b)).mapError placeless := by
    rw [← ofTokens_unplaced, ← ofTokens_unplaced (Token.ofLine b), map_unplaced_eq h]
  rw [Command.parse, Command.parse]
  cases ha : Command.ofTokens (Token.ofLine a) with
  | ok c =>
    cases hb : Command.ofTokens (Token.ofLine b) with
    | ok d =>
      rw [ha, hb] at hread
      obtain rfl := Except.ok.inj hread
      exact .accepted c
    | error r' => rw [ha, hb] at hread; cases hread
  | error r =>
    cases hb : Command.ofTokens (Token.ofLine b) with
    | ok d => rw [ha, hb] at hread; cases hread
    | error r' =>
      rw [ha, hb] at hread
      have hsame := ofRejection_of_placeless (Except.error.inj hread) a b
      change Alike (.error (ParseError.ofRejection a r)) (.error (ParseError.ofRejection b r'))
      rw [hsame]
      exact .refused _ _ _

/-- Lines with the same words are the lines that are written with the same words, however they are
spaced, and their verdicts are alike. -/
theorem parse_of_same_words (a b : String) :
    (texts a = texts b ↔ ∃ words, Spaced words a.toList ∧ Spaced words b.toList) ∧
    (texts a = texts b → Alike (Command.parse a) (Command.parse b)) :=
  ⟨texts_eq_iff_spaced, alike_of_texts_eq⟩

/-- A wide space and a tab in one line, single spaces in the other: both numbers are refused, each at
its own place. -/
theorem parse_of_same_words_wide :
    texts "\u3000scan\t-7\n" = texts "scan -7" ∧
      Alike (Command.parse "\u3000scan\t-7\n") (Command.parse "scan -7") := by
  have h : texts "\u3000scan\t-7\n" = texts "scan -7" := by rfl
  exact ⟨h, (parse_of_same_words "\u3000scan\t-7\n" "scan -7").2 h⟩

end DeviceShell.Proofs.Spacing
