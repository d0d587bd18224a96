import DeviceShell.Proofs.LineEnds

/-!
# The pieces of a text

Line ends cut a text into pieces, and `Pieced` states the cut from the left: every line end belongs
to the text that it ends, and nothing ends the last piece. A piece may hold carriage returns, and even
end in one, as long as none of them could be part of the line end behind it. Every text has one such
cut and `pieces` finds it, though it works from the right (`pieced_iff`).

Joining lines is the way back. Whatever line ends are chosen between whole lines, and whether or not
there is one at the end, a split gives back the lines with their places; those that are skipped
count, but are left out.
-/
namespace DeviceShell.Proofs.Pieces

open Batch (Line pieces split)
open LineEnds (EndedBy LineEnd Whole cutOf remainder)

/-- A text and what its line ends cut it into. -/
inductive Pieced : List Char → List (List Char) → Prop
  | last {text : List Char} (h : '\n' ∉ text) : Pieced text [text]
  | line {text rest : List Char} {ps : List (List Char)} (e : LineEnd) (h : EndedBy e text)
      (hr : Pieced rest ps) : Pieced (text ++ (e.chars ++ rest)) (text :: ps)

theorem pieces_of_pieced {cs : List Char} {ps : List (List Char)} (h : Pieced cs ps) :
    pieces cs = ps := by
  induction h with
  | last h => exact LineEnds.pieces_unended h
  | line e h _ ih => rw [LineEnds.pieces_line h, ih]

theorem pieced_lineEnd (e : LineEnd) {rest : List Char} {ps : List (List Char)}
    (h : Pieced rest ps) : Pieced (e.chars ++ rest) ([] :: ps) :=
  .line e ⟨List.not_mem_nil, fun _ => nofun⟩ h

/-- Behind a line feed the cut starts afresh. -/
theorem pieced_of_lineFeed {rest : List Char} {ps : List (List Char)}
    (h : Pieced ('\n' :: rest) ps) : ∃ later, ps = [] :: later ∧ Pieced rest later := by
  generalize hcs : '\n' :: rest = cs at h
  cases h with
  | last hn =>
    subst hcs
    exact absurd List.mem_cons_self hn
  | @line text rest' later e hended hlater =>
    cases text with
    | nil =>
      cases e with
      | lineFeed =>
        obtain rfl := (List.cons.inj hcs).2
        exact ⟨later, rfl, hlater⟩
      | returnAndLineFeed => exact absurd (List.cons.inj hcs).1 (by decide)
    | cons c text =>
      obtain rfl := (List.cons.inj hcs).1
      exact absurd List.mem_cons_self hended.lineFeed

/-- A character that is no part of a line end joins the piece behind it. -/
theorem pieced_cons {c : Char} {cs first : List Char} {later : List (List Char)} (hn : c ≠ '\n')
    (hr : c = '\r' → cs.head? ≠ some '\n') (h : Pieced cs (first :: later)) :
    Pieced (c :: cs) ((c :: first) :: later) := by
  cases h with
  | last hfirst => exact .last (List.not_mem_cons_of_ne_of_not_mem hn.symm hfirst)
  | @line _ rest _ e hended hlater =>
    refine .line e ⟨List.not_mem_cons_of_ne_of_not_mem hn.symm hended.lineFeed, ?_⟩ hlater
    rintro rfl
    cases first with
    | nil => exact fun hc => hr (Option.some.inj hc) rfl
    | cons d first => exact hended.carriageReturn rfl

theorem pieced_pieces (cs : List Char) : Pieced cs (pieces cs) := by
  induction cs with
  | nil => exact .last List.not_mem_nil
  | cons c cs ih =>
    by_cases hn : c = '\n'
    · subst hn
      exact pieced_lineEnd .lineFeed ih
    by_cases hr : c = '\r' ∧ cs.head? = some '\n'
    · -- The carriage return opens a line end, whose line feed has begun the cut so far.
      obtain ⟨rfl, hhead⟩ := hr
      obtain ⟨rest, rfl⟩ := List.head?_eq_some_iff.mp hhead
      obtain ⟨later, hps, hlater⟩ := pieced_of_lineFeed ih
      obtain rfl : pieces rest = later := (List.cons.inj hps).2
      exact pieced_lineEnd .returnAndLineFeed hlater
    · have hordinary : c = '\r' → cs.head? ≠ some '\n' := fun hc hhead => hr ⟨hc, hhead⟩
      rw [LineEnds.pieces_eq, LineEnds.cutOf_cons_of_ordinary hn hordinary]
      exact pieced_cons hn hordinary ih

/-- A text has one cut, and it is the one that is found. -/
theorem pieced_iff {cs : List Char} {ps : List (List Char)} : Pieced cs ps ↔ pieces cs = ps :=
  ⟨pieces_of_pieced, fun h => h ▸ pieced_pieces cs⟩

/-- A line and the line end behind it. -/
def closedLine (line : String × LineEnd) : String := line.1 ++ String.ofList line.2.chars

/-- Lines with a line end behind each, and a last line with one or without. -/
def written (lines : List (String × LineEnd)) (last : String) (ending? : Option LineEnd) : String :=
  String.join (lines.map closedLine) ++
    match ending? with
    | some e => closedLine (last, e)
    | none => last

/-- The lines of a written text. -/
def linesOf (lines : List (String × LineEnd)) (last : String) : List String :=
  lines.map Prod.fst ++ [last]

theorem written_cons (line : String × LineEnd) (lines : List (String × LineEnd)) (last : String)
    (ending? : Option LineEnd) :
    (written (line :: lines) last ending?).toList =
      line.1.toList ++ (line.2.chars ++ (written lines last ending?).toList) := by
  simp [written, closedLine]

theorem pieced_written {lines : List (String × LineEnd)} {last : String}
    (ending? : Option LineEnd) (hlines : ∀ line ∈ lines, Whole line.1.toList)
    (hlast : Whole last.toList) :
    Pieced (written lines last ending?).toList
      ((linesOf lines last ++ remainder ending?.isSome).map String.toList) := by
  induction lines with
  | nil =>
    cases ending? with
    | none =>
      have hbare : written [] last none = last := by simp [written]
      rw [hbare]
      exact .last hlast.lineFeed
    | some e =>
      have hclosed : (written [] last (some e)).toList = last.toList ++ (e.chars ++ []) := by
        simp [written, closedLine]
      rw [hclosed]
      exact .line e (LineEnds.endedBy_of_whole hlast e) (.last List.not_mem_nil)
  | cons line lines ih =>
    obtain ⟨hline, hlines⟩ := List.forall_mem_cons.mp hlines
    rw [written_cons]
    exact .line line.2 (LineEnds.endedBy_of_whole hline line.2) (ih hlines)

/-- What a split keeps of a text is settled by its pieces. -/
theorem split_of_pieced {input : String} {texts : List String}
    (h : Pieced input.toList (texts.map String.toList)) :
    split input = (Batch.number texts).filter fun line => !Batch.isSkipped line.text := by
  have hback : (texts.map String.toList).map String.ofList = texts := by
    rw [List.map_map]
    simp [Function.comp_def]
  rw [split, pieces_of_pieced h, hback]

/-- A line that is neither blank nor a comment. -/
def Carries (text : String) : Prop :=
  Text.trim text ≠ "" ∧ Text.hasPrefix "#" (Text.trim text) = false

instance (text : String) : Decidable (Carries text) :=
  inferInstanceAs (Decidable (_ ∧ _))

/-- Whatever the line ends, a written text is split into its lines with their places, but for those
that are blank or a comment. -/
theorem split_written (lines : List (String × LineEnd)) (last : String) (ending? : Option LineEnd)
    (hlines : ∀ line ∈ lines, Whole line.1.toList) (hlast : Whole last.toList) :
    split (written lines last ending?) =
      (LineEnds.counted (linesOf lines last)).filter fun line => Carries line.text := by
  rw [split_of_pieced (pieced_written ending? hlines hlast), LineEnds.filter_number_remainder,
    LineEnds.number_eq_counted]
  refine List.filter_congr fun line _ => ?_
  rw [Bool.eq_iff_iff, decide_eq_true_eq, Bool.not_eq_true', LineEnds.isSkipped_eq_false_iff]
  exact Iff.rfl

/-- A comment with a carriage return in it, a command between blanks, and an empty line. -/
def mixedLines : List (String × LineEnd) :=
  [("# a\rb", .returnAndLineFeed), ("  list\t", .lineFeed), ("", .returnAndLineFeed)]

/-- Two lines are left out and the others keep their places; the last one is closed. -/
theorem split_written_mixed :
    (∀ line ∈ mixedLines, Whole line.1.toList) ∧ Whole "exit #".toList ∧
    written mixedLines "exit #" (some .returnAndLineFeed) =
      "# a\rb\r\n  list\t\n\r\nexit #\r\n" ∧
    split (written mixedLines "exit #" (some .returnAndLineFeed)) =
      [⟨2, "  list\t"⟩, ⟨4, "exit #"⟩] := by
  have hlines : ∀ line ∈ mixedLines, Whole line.1.toList := by
    rw [mixedLines, List.forall_mem_cons, List.forall_mem_cons, List.forall_mem_singleton]
    refine ⟨⟨?_, ?_⟩, ⟨?_, ?_⟩, ⟨?_, ?_⟩⟩ <;> decide
  have hlast : Whole "exit #".toList := ⟨by decide, by decide⟩
  refine ⟨hlines, hlast, by decide, ?_⟩
  rw [split_written mixedLines "exit #" (some .returnAndLineFeed) hlines hlast]
  decide

end DeviceShell.Proofs.Pieces
