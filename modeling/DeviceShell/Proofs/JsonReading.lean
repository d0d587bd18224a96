import DeviceShell.Json.Reader
import DeviceShell.Proofs.JsonMarks

/-!
# What is written is read back

A value is exact when a double holds each of its numbers as a whole number and no object has two
fields of one name. The indented text of an exact value is read back as that value. Of other values
this is not claimed: a large number is rounded when it is written, and of two fields of one name
only one can be read.
-/
namespace DeviceShell.Proofs.JsonReading

open Json (Mark)
open Json.Reader (Frame Phase State put)
open JsonMarks (Breaks Scans Sealed)

/-- Values that lose nothing in writing. -/
inductive Exact : Json → Prop
  | null : Exact .null
  | bool (b : Bool) : Exact (.bool b)
  | number {n : Int} (h : n.natAbs < Binary64.mantissaLimit) : Exact (.ofInt n)
  | text (s : String) : Exact (.str s)
  | array {items : List Json} (h : ∀ v ∈ items, Exact v) : Exact (.arr items)
  | object {fields : List (String × Json)} (hnames : (fields.map Prod.fst).Nodup)
      (h : ∀ f ∈ fields, Exact f.2) : Exact (.obj fields)

def feed (s : State) (marks : List Mark) : Option State := marks.foldlM Json.Reader.step s

theorem feed_cons {s next : State} {m : Mark} (h : Json.Reader.step s m = some next)
    (ms : List Mark) : feed s (m :: ms) = feed next ms := by
  rw [feed, List.foldlM_cons, h]
  rfl

theorem feed_append {s next : State} {ms : List Mark} (h : feed s ms = some next)
    (ns : List Mark) : feed s (ms ++ ns) = feed next ns := by
  rw [feed] at h
  rw [feed, List.foldlM_append, h]
  rfl

/-- Wherever a value may come next, these marks hand this one to what is open. -/
structure Builds (marks : List Mark) (v : Json) : Prop where
  value : ∀ frames, feed ⟨.value, frames⟩ marks = put v frames
  firstItem : ∀ frames, feed ⟨.firstItem, frames⟩ marks = put v frames

theorem feed_singleton (s : State) (m : Mark) : feed s [m] = Json.Reader.step s m := by
  rw [feed, List.foldlM_cons]
  cases Json.Reader.step s m <;> rfl

theorem builds_scalar (v : Json) : Builds [.scalar v] v :=
  ⟨fun _ => feed_singleton _ _, fun _ => feed_singleton _ _⟩

theorem builds_text (s : String) : Builds [.text s] (.str s) :=
  ⟨fun _ => feed_singleton _ _, fun _ => feed_singleton _ _⟩

/-- An opening mark stands wherever a value may, and the other marks finish what it opens. -/
theorem builds_of_opening {first : Mark} {marks : List Mark} {v : Json}
    {opened : List Frame → State}
    (hvalue : ∀ frames, Json.Reader.step ⟨.value, frames⟩ first = some (opened frames))
    (hitem : ∀ frames, Json.Reader.step ⟨.firstItem, frames⟩ first = some (opened frames))
    (h : ∀ frames, feed (opened frames) marks = put v frames) : Builds (first :: marks) v := by
  constructor
  · intro frames
    rw [feed_cons (hvalue frames), h]
  · intro frames
    rw [feed_cons (hitem frames), h]

/-- A value, a text for it, and the marks that the text stands for. -/
structure Written where
  value : Json
  text : String
  marks : List Mark
  scans : Scans text.toList marks
  builds : Builds marks value

/-- Marks with a comma between each two of them. -/
def listed (marks : List (List Mark)) : List Mark := [Mark.comma].intercalate marks

theorem listed_singleton (ms : List Mark) : listed [ms] = ms := List.intercalate_singleton

theorem listed_cons_cons (ms ns : List Mark) (more : List (List Mark)) :
    listed (ms :: ns :: more) = ms ++ .comma :: listed (ns :: more) := by
  rw [listed, List.intercalate_cons_cons, List.append_assoc]
  rfl

/-- Listed items go to the open array one after another. -/
theorem feed_items {items : List Written} (hne : items ≠ []) {phase : Phase}
    (hphase : phase = .value ∨ phase = .firstItem) (done : List Json) (frames : List Frame) :
    feed ⟨phase, .array done :: frames⟩ (listed (items.map Written.marks)) =
      some ⟨.next, .array ((items.map Written.value).reverse ++ done) :: frames⟩ := by
  induction items generalizing phase done with
  | nil => exact absurd rfl hne
  | cons item items ih =>
    have hitem : feed ⟨phase, .array done :: frames⟩ item.marks =
        some ⟨.next, .array (item.value :: done) :: frames⟩ := by
      rcases hphase with rfl | rfl
      · exact item.builds.value _
      · exact item.builds.firstItem _
    cases items with
    | nil => rw [List.map_singleton, listed_singleton, hitem]; rfl
    | cons other items =>
      have hcomma : Json.Reader.step ⟨.next, .array (item.value :: done) :: frames⟩ .comma =
          some ⟨.value, .array (item.value :: done) :: frames⟩ := rfl
      rw [List.map_cons, List.map_cons, listed_cons_cons, feed_append hitem, feed_cons hcomma,
        ← List.map_cons, ih (List.cons_ne_nil _ _) (.inl rfl)]
      simp

theorem builds_array (items : List Written) :
    Builds (.openArray :: (listed (items.map Written.marks) ++ [.closeArray]))
      (.arr (items.map Written.value)) := by
  have hall : ∀ frames, feed ⟨.firstItem, .array [] :: frames⟩
      (listed (items.map Written.marks) ++ [.closeArray]) =
        put (.arr (items.map Written.value)) frames := by
    intro frames
    cases items with
    | nil => exact feed_singleton _ _
    | cons item items =>
      rw [feed_append (feed_items (List.cons_ne_nil _ _) (.inr rfl) [] frames), feed_singleton]
      have hclose : ∀ values : List Json,
          Json.Reader.step ⟨.next, .array (values.reverse ++ []) :: frames⟩ .closeArray =
            put (.arr values) frames := by
        intro values
        simp only [Json.Reader.step, Json.Reader.closeArray, List.append_nil, List.reverse_reverse]
      exact hclose _
  exact builds_of_opening (fun _ => rfl) (fun _ => rfl) hall

/-- The marks of a field. -/
def fieldMarks (f : String × Written) : List Mark := .text f.1 :: .colon :: f.2.marks

def fieldOf (f : String × Written) : String × Json := (f.1, f.2.value)

theorem putField_new {name : String} (v : Json) {fields : List (String × Json)}
    (h : name ∉ fields.map Prod.fst) : Json.putField name v fields = fields ++ [(name, v)] := by
  induction fields with
  | nil => rfl
  | cons f fields ih =>
    obtain ⟨key, value⟩ := f
    rw [List.map_cons] at h
    obtain ⟨hne, hrest⟩ := List.ne_and_not_mem_of_not_mem_cons h
    rw [Json.putField, if_neg (Ne.symm hne), ih hrest, List.cons_append]

/-- Listed fields with new names go to the open object one after another. -/
theorem feed_fields {fields : List (String × Written)} (hne : fields ≠ []) {phase : Phase}
    (hphase : phase = .name ∨ phase = .firstName) (done : List (String × Json))
    (frames : List Frame) (hnames : ((done ++ fields.map fieldOf).map Prod.fst).Nodup) :
    feed ⟨phase, .object done :: frames⟩ (listed (fields.map fieldMarks)) =
      some ⟨.next, .object (done ++ fields.map fieldOf) :: frames⟩ := by
  induction fields generalizing phase done with
  | nil => exact absurd rfl hne
  | cons f fields ih =>
    have hnew : f.1 ∉ done.map Prod.fst := by
      rw [List.map_append, List.nodup_append] at hnames
      intro hm
      exact hnames.2.2 _ hm _ List.mem_cons_self rfl
    have hfield : feed ⟨phase, .object done :: frames⟩ (fieldMarks f) =
        some ⟨.next, .object (done ++ [fieldOf f]) :: frames⟩ := by
      have hname : Json.Reader.step ⟨phase, .object done :: frames⟩ (.text f.1) =
          some ⟨.colon, .field done f.1 :: frames⟩ := by
        rcases hphase with rfl | rfl <;> rfl
      have hcolon : Json.Reader.step ⟨.colon, .field done f.1 :: frames⟩ .colon =
          some ⟨.value, .field done f.1 :: frames⟩ := rfl
      rw [fieldMarks, feed_cons hname, feed_cons hcolon, f.2.builds.value, put, putField_new _ hnew]
      rfl
    cases fields with
    | nil => rw [List.map_singleton, listed_singleton, hfield]; rfl
    | cons g fields =>
      have hcomma : Json.Reader.step ⟨.next, .object (done ++ [fieldOf f]) :: frames⟩ .comma =
          some ⟨.name, .object (done ++ [fieldOf f]) :: frames⟩ := rfl
      have hsame : done ++ (f :: g :: fields).map fieldOf =
          (done ++ [fieldOf f]) ++ (g :: fields).map fieldOf := by simp
      rw [hsame] at hnames ⊢
      rw [List.map_cons, List.map_cons, listed_cons_cons, feed_append hfield, feed_cons hcomma,
        ← List.map_cons, ih (List.cons_ne_nil _ _) (.inl rfl) _ hnames]

theorem builds_object {fields : List (String × Written)}
    (hnames : ((fields.map fieldOf).map Prod.fst).Nodup) :
    Builds (.openObject :: (listed (fields.map fieldMarks) ++ [.closeObject]))
      (.obj (fields.map fieldOf)) := by
  have hall : ∀ frames, feed ⟨.firstName, .object [] :: frames⟩
      (listed (fields.map fieldMarks) ++ [.closeObject]) =
        put (.obj (fields.map fieldOf)) frames := by
    intro frames
    cases fields with
    | nil => exact feed_singleton _ _
    | cons f fields =>
      rw [feed_append (feed_fields (List.cons_ne_nil _ _) (.inr rfl) [] frames hnames),
        feed_singleton]
      rfl
  exact builds_of_opening (fun _ => rfl) (fun _ => rfl) hall

theorem isSpace_of_mem_spaces {n : Nat} {c : Char} (h : c ∈ (Json.spaces n).toList) :
    Mark.isSpace c = true := by
  rw [Json.spaces, String.toList_ofList] at h
  rw [List.eq_of_mem_replicate h]
  rfl

theorem sealed_spaces (n : Nat) : Sealed (Json.spaces n).toList [] :=
  JsonMarks.sealed_space (List.all_eq_true.mpr fun _ => isSpace_of_mem_spaces)

/-- Texts on lines of their own, a comma behind each but the last. -/
theorem scans_lines {items : List (String × List Mark)} (hne : items ≠ [])
    (h : ∀ i ∈ items, Scans i.1.toList i.2) (margin : Nat) :
    Scans (",\n".intercalate ((items.map Prod.fst).map (Json.spaces margin ++ ·))).toList
      (listed (items.map Prod.snd)) := by
  induction items with
  | nil => exact absurd rfl hne
  | cons item items ih =>
    obtain ⟨hitem, hitems⟩ := List.forall_mem_cons.mp h
    have hline : Scans (Json.spaces margin ++ item.1).toList item.2 := by
      rw [String.toList_append]
      exact (sealed_spaces margin).append_scans hitem
    cases items with
    | nil =>
      rw [List.map_singleton, List.map_singleton, List.map_singleton, String.intercalate_singleton,
        listed_singleton]
      exact hline
    | cons other items =>
      have hcomma : Sealed ",\n".toList [.comma] :=
        (JsonMarks.sealed_cut (c := ',') fun _ => rfl).append (JsonMarks.sealed_space (by rfl))
      have hfirst := hline.append hcomma fun _ => rfl
      have hrest := hfirst.append_scans (ih (List.cons_ne_nil _ _) hitems)
      simpa only [List.map_cons, String.intercalate_cons_cons, String.toList_append,
        listed_cons_cons, List.append_assoc, List.singleton_append] using hrest

/-- A block of lines between brackets stands for its items between the marks of the brackets. -/
theorem sealed_block {opening closing : String} {first last : Mark}
    (ho : Sealed opening.toList [first]) (hc : Sealed closing.toList [last])
    {items : List (String × List Mark)} (h : ∀ i ∈ items, Scans i.1.toList i.2) (margin : Nat) :
    Sealed (Json.block opening closing margin (items.map Prod.fst)).toList
      (first :: (listed (items.map Prod.snd) ++ [last])) := by
  rw [Json.block]
  by_cases hne : items = []
  · subst hne
    rw [List.map_nil, List.isEmpty_nil, if_pos rfl, String.toList_append]
    exact ho.append hc
  · have hfull : (items.map Prod.fst).isEmpty = false := by
      rw [List.isEmpty_eq_false_iff]
      exact fun hnil => hne (List.map_eq_nil_iff.mp hnil)
    have hbreak : Sealed "\n".toList [] := JsonMarks.sealed_space (by rfl)
    have hend := hbreak.append ((sealed_spaces margin).append hc)
    have hlines := (scans_lines hne h (margin + 2)).append hend fun _ => rfl
    have hall := ho.append (hbreak.append hlines)
    rw [hfull, if_neg Bool.false_ne_true]
    simpa only [String.toList_append, List.append_assoc, List.nil_append,
      List.singleton_append] using hall

theorem indentedItems_eq (margin : Nat) (items : List Json) :
    Json.indentedItems margin items = items.map (Json.indentedAt margin) := by
  induction items with
  | nil => rfl
  | cons v items ih => rw [Json.indentedItems, ih, List.map_cons]

/-- The text of a field whose value has this text. -/
def fieldText (name text : String) : String := Json.quote name ++ ": " ++ text

theorem indentedFields_eq (margin : Nat) (fields : List (String × Json)) :
    Json.indentedFields margin fields =
      fields.map fun f => fieldText f.1 (Json.indentedAt margin f.2) := by
  induction fields with
  | nil => rfl
  | cons f fields ih =>
    obtain ⟨name, v⟩ := f
    rw [Json.indentedFields, ih, List.map_cons]
    rfl

theorem scans_field (name : String) (w : Written) :
    Scans (fieldText name w.text).toList (fieldMarks (name, w)) := by
  have hcolon : Sealed ": ".toList [.colon] :=
    (JsonMarks.sealed_cut (c := ':') fun _ => rfl).append (JsonMarks.sealed_space (by rfl))
  have hall := ((JsonMarks.sealed_quote name).append hcolon).append_scans w.scans
  simpa only [fieldText, fieldMarks, String.toList_append, List.append_assoc, List.cons_append,
    List.nil_append] using hall

/-- A value that is written as a text. -/
def IsWritten (v : Json) (text : String) : Prop := ∃ w : Written, w.value = v ∧ w.text = text

theorem exists_items {items : List Json} {text : Json → String}
    (h : ∀ v ∈ items, IsWritten v (text v)) :
    ∃ ws : List Written, ws.map Written.value = items ∧ ws.map Written.text = items.map text := by
  induction items with
  | nil => exact ⟨[], rfl, rfl⟩
  | cons v items ih =>
    obtain ⟨⟨w, hv, ht⟩, hitems⟩ := List.forall_mem_cons.mp h
    obtain ⟨ws, hvalues, htexts⟩ := ih hitems
    exact ⟨w :: ws, by rw [List.map_cons, hv, hvalues], by rw [List.map_cons, ht, htexts]; rfl⟩

theorem exists_fields {fields : List (String × Json)} {text : Json → String}
    (h : ∀ f ∈ fields, IsWritten f.2 (text f.2)) :
    ∃ ws : List (String × Written), ws.map fieldOf = fields ∧
      ws.map (fun f => fieldText f.1 f.2.text) = fields.map fun f => fieldText f.1 (text f.2) := by
  induction fields with
  | nil => exact ⟨[], rfl, rfl⟩
  | cons f fields ih =>
    obtain ⟨⟨w, hv, ht⟩, hfields⟩ := List.forall_mem_cons.mp h
    obtain ⟨ws, hvalues, htexts⟩ := ih hfields
    refine ⟨(f.1, w) :: ws, ?_, ?_⟩
    · rw [List.map_cons, hvalues, fieldOf, hv]
    · rw [List.map_cons, htexts, ht]
      rfl

theorem isWritten_array {items : List Json} {margin : Nat}
    (h : ∀ v ∈ items, IsWritten v (Json.indentedAt (margin + 2) v)) :
    IsWritten (.arr items) (Json.indentedAt margin (.arr items)) := by
  obtain ⟨ws, rfl, htexts⟩ := exists_items h
  have hopen : Sealed "[".toList [.openArray] := JsonMarks.sealed_cut fun _ => rfl
  have hclose : Sealed "]".toList [.closeArray] := JsonMarks.sealed_cut fun _ => rfl
  have hscans : ∀ i ∈ ws.map (fun w => (w.text, w.marks)), Scans i.1.toList i.2 := by
    intro i hi
    obtain ⟨w, -, rfl⟩ := List.mem_map.mp hi
    exact w.scans
  have hblock := sealed_block hopen hclose hscans margin
  simp only [List.map_map, Function.comp_def] at hblock
  rw [htexts, ← indentedItems_eq] at hblock
  exact ⟨⟨_, _, _, hblock.scans, builds_array ws⟩, rfl, rfl⟩

theorem isWritten_object {fields : List (String × Json)} {margin : Nat}
    (hnames : (fields.map Prod.fst).Nodup)
    (h : ∀ f ∈ fields, IsWritten f.2 (Json.indentedAt (margin + 2) f.2)) :
    IsWritten (.obj fields) (Json.indentedAt margin (.obj fields)) := by
  obtain ⟨ws, rfl, htexts⟩ := exists_fields h
  have hopen : Sealed "\x7b".toList [.openObject] := JsonMarks.sealed_cut fun _ => rfl
  have hclose : Sealed "\x7d".toList [.closeObject] := JsonMarks.sealed_cut fun _ => rfl
  have hscans : ∀ i ∈ ws.map (fun f => (fieldText f.1 f.2.text, fieldMarks f)),
      Scans i.1.toList i.2 := by
    intro i hi
    obtain ⟨f, -, rfl⟩ := List.mem_map.mp hi
    exact scans_field f.1 f.2
  have hblock := sealed_block hopen hclose hscans margin
  simp only [List.map_map, Function.comp_def] at hblock
  rw [htexts, ← indentedFields_eq] at hblock
  exact ⟨⟨_, _, _, hblock.scans, builds_object hnames⟩, rfl, rfl⟩

theorem isWritten_indentedAt {v : Json} (h : Exact v) (margin : Nat) :
    IsWritten v (Json.indentedAt margin v) := by
  induction h generalizing margin with
  | null => exact ⟨⟨_, _, _, JsonMarks.scans_null, builds_scalar _⟩, rfl, rfl⟩
  | bool b => exact ⟨⟨_, _, _, JsonMarks.scans_bool b, builds_scalar _⟩, rfl, rfl⟩
  | number hn => exact ⟨⟨_, _, _, JsonMarks.scans_number hn, builds_scalar _⟩, rfl, rfl⟩
  | text s => exact ⟨⟨_, _, _, (JsonMarks.sealed_quote s).scans, builds_text s⟩, rfl, rfl⟩
  | array _ ih => exact isWritten_array fun v hv => ih v hv (margin + 2)
  | object hnames _ ih => exact isWritten_object hnames fun f hf => ih f hf (margin + 2)

/-- The indented text of an exact value is read back as that value. -/
theorem read?_indented {v : Json} (h : Exact v) : Json.read? v.indented = some v := by
  obtain ⟨w, hv, ht⟩ := isWritten_indentedAt h 0
  have hmarks : Mark.ofText? v.indented = some w.marks := by
    have hscan := w.scans [] [] trivial
    rw [List.append_nil, List.append_nil, ht] at hscan
    have hend : JsonMarks.scan w.marks.reverse [] = some w.marks.reverse.reverse := rfl
    rw [List.reverse_reverse] at hend
    exact hscan.trans hend
  have hbuild : w.marks.foldlM Json.Reader.step ⟨.value, []⟩ = some ⟨.finished v, []⟩ := by
    rw [← hv]
    exact w.builds.value []
  rw [Json.read?, hmarks, Option.bind_eq_bind, Option.bind_some, hbuild]
  rfl

end DeviceShell.Proofs.JsonReading
