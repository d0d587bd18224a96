import DeviceShell.Batch

/-!
# Lines and their ends

A line end is a line feed, with a carriage return just before it or without. It ends a text that
holds no line feed and, where the line end is a bare line feed, does not itself end in a carriage
return; carriage returns elsewhere in it are ordinary characters. A text is whole when every line
end does. `pieces_line` cuts one ended text off in front, and from it a joined text is cut back into
what was joined, each line with its place among the joined ones as its number.
-/
namespace DeviceShell.Proofs.LineEnds

open Batch (Cut Line pieces numberFrom number isSkipped split)

inductive LineEnd where
  | lineFeed
  | returnAndLineFeed
  deriving DecidableEq, Repr

def LineEnd.chars : LineEnd → List Char
  | .lineFeed => ['\n']
  | .returnAndLineFeed => ['\r', '\n']

/-- A line end of this kind behind the text ends exactly this text. -/
structure EndedBy (e : LineEnd) (text : List Char) : Prop where
  lineFeed : '\n' ∉ text
  carriageReturn : e = .lineFeed → text.getLast? ≠ some '\r'

/-- A line end behind the text ends it, and no other does before. -/
structure Whole (cs : List Char) : Prop where
  lineFeed : '\n' ∉ cs
  carriageReturn : cs.getLast? ≠ some '\r'

theorem endedBy_of_whole {text : List Char} (h : Whole text) (e : LineEnd) : EndedBy e text :=
  ⟨h.lineFeed, fun _ => h.carriageReturn⟩

/-- The cut of the whole text behind a point. -/
def cutOf (cs : List Char) : Cut := cs.foldr Cut.extend ⟨false, [], []⟩

theorem pieces_eq (cs : List Char) : pieces cs = (cutOf cs).first :: (cutOf cs).later := rfl

theorem cutOf_cons (c : Char) (cs : List Char) : cutOf (c :: cs) = Cut.extend c (cutOf cs) := rfl

theorem atLineFeed_cutOf {cs : List Char} :
    (cutOf cs).atLineFeed = true ↔ cs.head? = some '\n' := by
  cases cs with
  | nil => exact ⟨nofun, nofun⟩
  | cons c cs =>
    rw [cutOf_cons, Cut.extend, List.head?_cons, Option.some.injEq]
    split
    · next hc => exact ⟨fun _ => hc, fun _ => rfl⟩
    split
    · next hc _ => exact ⟨nofun, fun h => absurd h hc⟩
    · next hc _ => exact ⟨nofun, fun h => absurd h hc⟩

/-- A character belongs to the line behind it unless it is part of a line end. -/
theorem cutOf_cons_of_ordinary {c : Char} {cs : List Char} (hn : c ≠ '\n')
    (hr : c = '\r' → cs.head? ≠ some '\n') :
    cutOf (c :: cs) = ⟨false, c :: (cutOf cs).first, (cutOf cs).later⟩ := by
  have hnot : ¬ (c = '\r' ∧ (cutOf cs).atLineFeed = true) := fun h =>
    hr h.1 (atLineFeed_cutOf.mp h.2)
  rw [cutOf_cons, Cut.extend, if_neg hn, if_neg hnot]

theorem cutOf_lineEnd (e : LineEnd) (cs : List Char) :
    (cutOf (e.chars ++ cs)).first = [] ∧ (cutOf (e.chars ++ cs)).later = pieces cs := by
  cases e <;> exact ⟨rfl, rfl⟩

/-- A text that no line end takes part of goes whole to the first piece of what follows it. -/
theorem cutOf_append {text : List Char} (hn : '\n' ∉ text) (rest : List Char)
    (hr : rest.head? = some '\n' → text.getLast? ≠ some '\r') :
    (cutOf (text ++ rest)).first = text ++ (cutOf rest).first ∧
      (cutOf (text ++ rest)).later = (cutOf rest).later := by
  induction text with
  | nil => exact ⟨rfl, rfl⟩
  | cons c text ih =>
    obtain ⟨hc, htext⟩ := List.ne_and_not_mem_of_not_mem_cons hn
    have hlast : rest.head? = some '\n' → text.getLast? ≠ some '\r' := fun hrest hl =>
      hr hrest (by rw [List.getLast?_cons, hl, Option.getD_some])
    -- A carriage return at the very end meets what follows the text, any other one the text itself.
    have hreturn : c = '\r' → (text ++ rest).head? ≠ some '\n' := by
      rintro rfl
      cases text with
      | nil => exact fun hrest => hr hrest rfl
      | cons d text =>
        intro hd
        exact (List.ne_and_not_mem_of_not_mem_cons htext).1 (Option.some.inj hd).symm
    obtain ⟨hfirst, hlater⟩ := ih htext hlast
    rw [List.cons_append, cutOf_cons_of_ordinary hc.symm hreturn, hfirst, hlater]
    exact ⟨rfl, rfl⟩

theorem head?_lineEnd_append {e : LineEnd} {rest : List Char} :
    (e.chars ++ rest).head? = some '\n' → e = .lineFeed := by
  cases e with
  | lineFeed => exact fun _ => rfl
  | returnAndLineFeed => exact nofun

/-- A line with its end in front of a text is its first piece. -/
theorem pieces_line {text : List Char} {e : LineEnd} (h : EndedBy e text) (rest : List Char) :
    pieces (text ++ (e.chars ++ rest)) = text :: pieces rest := by
  obtain ⟨hfirst, hlater⟩ := cutOf_append h.lineFeed (e.chars ++ rest)
    fun hrest => h.carriageReturn (head?_lineEnd_append hrest)
  obtain ⟨hnil, hrest⟩ := cutOf_lineEnd e rest
  rw [pieces_eq, hfirst, hlater, hnil, hrest, List.append_nil]

/-- A text without a line end is one piece. -/
theorem pieces_unended {text : List Char} (h : '\n' ∉ text) : pieces text = [text] := by
  obtain ⟨hfirst, hlater⟩ := cutOf_append h [] nofun
  rw [List.append_nil] at hfirst hlater
  rw [pieces_eq, hfirst, hlater]
  simp [cutOf]

/-- Texts with a line feed between each two, and one at the end if the last line is closed. -/
def joined (closed : Bool) (texts : List String) : String :=
  "\n".intercalate texts ++ if closed then "\n" else ""

/-- What a closing line feed leaves behind it: an empty piece. -/
def remainder (closed : Bool) : List String := if closed then [""] else []

theorem pieces_joined (closed : Bool) {texts : List String} (hne : texts ≠ [])
    (h : ∀ t ∈ texts, Whole t.toList) :
    pieces (joined closed texts).toList = (texts ++ remainder closed).map String.toList := by
  induction texts with
  | nil => exact absurd rfl hne
  | cons t texts ih =>
    obtain ⟨ht, htexts⟩ := List.forall_mem_cons.mp h
    cases texts with
    | nil =>
      rw [joined, String.intercalate_singleton, String.toList_append]
      cases closed with
      | true => exact pieces_line (endedBy_of_whole ht .lineFeed) []
      | false =>
        have hempty : (if false = true then "\n" else "").toList = [] := rfl
        rw [hempty, List.append_nil, pieces_unended ht.lineFeed]
        rfl
    | cons u texts =>
      have hsplit : (joined closed (t :: u :: texts)).toList =
          t.toList ++ (LineEnd.lineFeed.chars ++ (joined closed (u :: texts)).toList) := by
        simp only [joined, String.intercalate_cons_cons, String.toList_append, List.append_assoc]
        rfl
      rw [hsplit, pieces_line (endedBy_of_whole ht .lineFeed), ih (List.cons_ne_nil _ _) htexts]
      rfl

/-- Texts with their places, counted from one. -/
def counted (texts : List String) : List Line := (texts.zipIdx 1).map fun p => ⟨p.2, p.1⟩

theorem numberFrom_eq_zipIdx (start : Nat) (texts : List String) :
    numberFrom start texts = (texts.zipIdx start).map fun p => ⟨p.2, p.1⟩ := by
  induction texts generalizing start with
  | nil => rfl
  | cons t texts ih => rw [numberFrom, List.zipIdx_cons, List.map_cons, ← ih, Int.natCast_succ]

theorem number_eq_counted (texts : List String) : number texts = counted texts :=
  numberFrom_eq_zipIdx 1 texts

theorem start_le_of_mem_numberFrom {start : Int} {texts : List String} {line : Line}
    (h : line ∈ numberFrom start texts) : start ≤ line.number := by
  induction texts generalizing start with
  | nil => exact absurd h List.not_mem_nil
  | cons t texts ih =>
    rcases List.mem_cons.mp h with rfl | h
    · exact Int.le_refl _
    · have := ih h
      omega

/-- Each number belongs to one line. -/
theorem filter_numberFrom {start : Int} {texts : List String} {i : Nat} {text : String}
    (h : texts[i]? = some text) :
    (numberFrom start texts).filter (fun line => line.number = start + i) =
      [⟨start + i, text⟩] := by
  induction texts generalizing start i with
  | nil => cases h
  | cons t texts ih =>
    rw [numberFrom]
    cases i with
    | zero =>
      obtain rfl := Option.some.inj h
      have hlater : (numberFrom (start + 1) texts).filter (fun line => line.number = start + 0) =
          [] := by
        refine List.filter_eq_nil_iff.mpr fun line hline => ?_
        have := start_le_of_mem_numberFrom hline
        rw [decide_eq_true_eq]
        omega
      rw [Int.natCast_zero, List.filter_cons_of_pos (by simp), hlater, Int.add_zero]
    | succ i =>
      have hplace : start + ((i + 1 : Nat) : Int) = start + 1 + i := by omega
      rw [hplace, List.filter_cons_of_neg (by simp; omega)]
      exact ih h

theorem filter_number {texts : List String} {i : Nat} {text : String} (h : texts[i]? = some text) :
    (number texts).filter (fun line : Line => line.number = i + 1) = [⟨i + 1, text⟩] := by
  rw [Int.add_comm]
  exact filter_numberFrom h

theorem numberFrom_append (start : Int) (texts more : List String) :
    numberFrom start (texts ++ more) =
      numberFrom start texts ++ numberFrom (start + texts.length) more := by
  induction texts generalizing start with
  | nil => simp [numberFrom]
  | cons t texts ih =>
    rw [List.cons_append, numberFrom, ih, numberFrom, List.cons_append, List.length_cons,
      Int.natCast_succ, Int.add_assoc, Int.add_comm 1]

theorem map_text_numberFrom (start : Int) (texts : List String) :
    (numberFrom start texts).map Line.text = texts := by
  induction texts generalizing start with
  | nil => rfl
  | cons t texts ih => rw [numberFrom, List.map_cons, ih]

theorem map_text_number (texts : List String) : (number texts).map Line.text = texts :=
  map_text_numberFrom 1 texts

theorem text_mem_of_mem_number {texts : List String} {line : Line} (h : line ∈ number texts) :
    line.text ∈ texts := by
  have hm := List.mem_map_of_mem (f := Line.text) h
  rwa [map_text_number] at hm

theorem number_eq_nil_iff {texts : List String} : number texts = [] ↔ texts = [] := by
  cases texts with
  | nil => exact ⟨fun _ => rfl, fun _ => rfl⟩
  | cons t texts => exact ⟨nofun, nofun⟩

/-- The closing line feed adds no line, since the empty piece behind it is blank. -/
theorem filter_number_remainder (closed : Bool) (texts : List String) :
    (number (texts ++ remainder closed)).filter (fun line => !isSkipped line.text) =
      (number texts).filter fun line => !isSkipped line.text := by
  rw [number, numberFrom_append, List.filter_append]
  cases closed with
  | true =>
    have hskip : isSkipped "" = true := rfl
    rw [remainder, if_pos rfl, numberFrom, numberFrom, List.filter_cons_of_neg (by simp [hskip]),
      List.filter_nil, List.append_nil]
    rfl
  | false =>
    rw [remainder, if_neg Bool.false_ne_true, numberFrom, List.filter_nil, List.append_nil]
    rfl

/-- A joined text gives back the lines that are not skipped, under their own numbers. -/
theorem split_joined (closed : Bool) {texts : List String} (hne : texts ≠ [])
    (h : ∀ t ∈ texts, Whole t.toList) :
    split (joined closed texts) = (number texts).filter fun line => !isSkipped line.text := by
  have hback : ((texts ++ remainder closed).map String.toList).map String.ofList =
      texts ++ remainder closed := by
    rw [List.map_map]
    simp [Function.comp_def]
  rw [split, pieces_joined closed hne h, hback, filter_number_remainder]

/-- A text that is a line of its own and is not skipped. -/
structure Kept (t : String) : Prop where
  whole : Whole t.toList
  blank : Text.trim t ≠ ""
  comment : Text.hasPrefix "#" (Text.trim t) = false

theorem isSkipped_eq_false_iff {t : String} :
    isSkipped t = false ↔ Text.trim t ≠ "" ∧ Text.hasPrefix "#" (Text.trim t) = false := by
  rw [isSkipped, Bool.or_eq_false_iff, Ne, Text.trim_eq_empty_iff, Bool.not_eq_true]

/-- Where no line is skipped, a joined text gives back every line. -/
theorem split_joined_of_kept (closed : Bool) {texts : List String} (hne : texts ≠ [])
    (h : ∀ t ∈ texts, Kept t) : split (joined closed texts) = number texts := by
  rw [split_joined closed hne fun t ht => (h t ht).whole, List.filter_eq_self]
  intro line hline
  have hkept := h line.text (text_mem_of_mem_number hline)
  rw [isSkipped_eq_false_iff.mpr ⟨hkept.blank, hkept.comment⟩]
  rfl

end DeviceShell.Proofs.LineEnds
