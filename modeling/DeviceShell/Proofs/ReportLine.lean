import DeviceShell.Cli.Parse
import DeviceShell.Proofs.JsonMarks
import DeviceShell.Proofs.Places
import DeviceShell.Proofs.ReportContext
import DeviceShell.Proofs.RoundTrip
import DeviceShell.World

/-!
# A report is one line and gives the line back

A rejected line may hold anything, line ends included, and it comes into its report twice: quoted in
front, and as a bare word within the message. The word is solid, so no line end is in it; the quoted
text spells its line ends by escapes; all else in a report is fixed text and numerals. In front of the
message the report holds the whole line again: scanning it as far as its first quoted text reads the
line back, so reports of different lines differ.
-/
namespace DeviceShell.Proofs.ReportLine

open Json (Mark)
open Json.Mark (Scan)
open Text (isBlank)
open Words (Word)

/-- There is neither a line feed nor a carriage return. -/
def Unbroken (cs : List Char) : Prop := '\n' ∉ cs ∧ '\r' ∉ cs

def OneLine (s : String) : Prop := Unbroken s.toList

instance (cs : List Char) : Decidable (Unbroken cs) :=
  inferInstanceAs (Decidable ('\n' ∉ cs ∧ '\r' ∉ cs))

instance (s : String) : Decidable (OneLine s) := inferInstanceAs (Decidable (Unbroken s.toList))

theorem Unbroken.append {cs ds : List Char} (hc : Unbroken cs) (hd : Unbroken ds) :
    Unbroken (cs ++ ds) :=
  ⟨List.not_mem_append hc.1 hd.1, List.not_mem_append hc.2 hd.2⟩

theorem OneLine.append {s t : String} (hs : OneLine s) (ht : OneLine t) : OneLine (s ++ t) := by
  unfold OneLine
  rw [String.toList_append]
  exact Unbroken.append hs ht

/-- Neither line end is of this kind, so none of these characters is one. -/
theorem unbroken_of_forall {p : Char → Bool} {cs : List Char} (hfeed : p '\n' = false)
    (hreturn : p '\r' = false) (h : ∀ c ∈ cs, p c = true) : Unbroken cs := by
  constructor
  · intro hm
    rw [h _ hm] at hfeed
    cases hfeed
  · intro hm
    rw [h _ hm] at hreturn
    cases hreturn

theorem oneLine_of_word {s : String} (h : Word s.toList) : OneLine s :=
  unbroken_of_forall (p := fun c => !isBlank c) rfl rfl fun c hc => by rw [h.solid c hc]; rfl

theorem oneLine_write (n : Nat) : OneLine (Numeral.write n) := by
  unfold OneLine Numeral.write
  rw [String.toList_ofList]
  exact unbroken_of_forall rfl rfl fun c hc => Nat.isDigit_of_mem_toDigits (by decide) (by decide) hc

theorem unbroken_digitChar {d : Nat} (h : d < 16) : Unbroken [Nat.digitChar d] := by
  have hall : ∀ d : Nat, d < 16 → Unbroken [Nat.digitChar d] := by decide
  exact hall d h

/-- An escape holds no line end, and a line end is escaped. -/
theorem unbroken_escape (c : Char) : Unbroken (Json.escape c) := by
  unfold Json.escape
  split
  · decide
  split
  · decide
  split
  · decide
  split
  · decide
  split
  · decide
  split
  · decide
  split
  · decide
  next hfeed hreturn _ =>
  split
  · next hcontrol =>
    have hcode : Unbroken ['\\', 'u', '0', '0'] := by decide
    have hhigh := unbroken_digitChar (d := c.toNat / 16) (by omega)
    have hlow := unbroken_digitChar (d := c.toNat % 16) (by omega)
    exact hcode.append (hhigh.append hlow)
  · exact ⟨fun hm => hfeed (List.mem_singleton.mp hm).symm,
      fun hm => hreturn (List.mem_singleton.mp hm).symm⟩

theorem unbroken_escapes (cs : List Char) : Unbroken (cs.flatMap Json.escape) := by
  induction cs with
  | nil => decide
  | cons c cs ih =>
    rw [List.flatMap_cons]
    exact (unbroken_escape c).append ih

theorem oneLine_quote (s : String) : OneLine (Json.quote s) := by
  have hmark : Unbroken ['"'] := by decide
  unfold OneLine Json.quote
  rw [String.toList_ofList]
  exact (hmark.append (unbroken_escapes s.toList)).append hmark

theorem oneLine_text (k : Keyword) : OneLine k.text := by
  cases k <;> decide

theorem oneLine_placeholder (k : Keyword) : OneLine k.placeholder := by
  cases k <;> decide

theorem oneLine_usage (k : Keyword) : OneLine k.usage := by
  cases k <;> decide

theorem oneLine_name (kind : RejectionKind) : OneLine kind.name := by
  cases kind <;> decide

theorem oneLine_empty : OneLine "" := by decide

theorem oneLine_mark : OneLine "'" := by decide

/-- How the messages about a keyword begin. -/
theorem oneLine_command (k : Keyword) : OneLine ("Command '" ++ k.text) := by
  have hopen : OneLine "Command '" := by decide
  exact hopen.append (oneLine_text k)

/-- A message is one line if the word that it repeats is. -/
theorem oneLine_message {r : Rejection} (h : OneLine r.token.text) : OneLine r.message := by
  cases r with
  | blank => decide
  | unknownKeyword word =>
    have hopen : OneLine "Unknown command '" := by decide
    exact (hopen.append h).append oneLine_mark
  | trailing k word =>
    have hfound : OneLine "' takes no arguments, found '" := by decide
    exact (((oneLine_command k).append hfound).append h).append oneLine_mark
  | missingArgument k stop =>
    have hneeds : OneLine "' requires " := by decide
    exact ((oneLine_command k).append hneeds).append (oneLine_placeholder k)
  | surplus k extra count =>
    have hgot : OneLine "' takes exactly one argument, got " := by decide
    exact ((oneLine_command k).append hgot).append (oneLine_write count)
  | notANumber k word =>
    have hopen : OneLine "Invalid " := by decide
    have hfor : OneLine " for '" := by decide
    have hcolon : OneLine "': '" := by decide
    have hclose : OneLine "' is not a non-negative integer" := by decide
    exact (((((hopen.append (oneLine_placeholder k)).append hfor).append (oneLine_text k)).append
      hcolon).append h).append hclose
  | tooLarge k word =>
    have hopen : OneLine "Argument '" := by decide
    have hfor : OneLine "' for '" := by decide
    have hexceeds : OneLine "' exceeds " := by decide
    exact ((((hopen.append h).append hfor).append (oneLine_text k)).append hexceeds).append
      (oneLine_write _)

/-- What a rejection names is a word of the line or nothing, so no line end is in it. -/
theorem oneLine_of_blames {line : String} {t : Token}
    (h : Rejections.Blames (Token.ofLine line) t) : OneLine t.text := by
  cases h with
  | nothing => exact oneLine_empty
  | missing ht => exact oneLine_empty
  | word ht => exact oneLine_of_word (Places.bounded_of_mem (Words.ofLine_eq_iff.mp rfl) ht).1

theorem oneLine_suggestion (e : ParseError) : OneLine (Diagnosis.suggestion e) := by
  have hhint : OneLine Diagnosis.keywordsHint := by decide
  have husage : OneLine "Usage: " := by decide
  -- A syntax line is that of some keyword, whichever the error names.
  have hknown : ∀ usage, Diagnosis.usageOf? e = some usage → OneLine usage := by
    intro usage h
    obtain ⟨k, -, rfl⟩ := Option.map_eq_some_iff.mp h
    exact oneLine_usage k
  unfold Diagnosis.suggestion
  cases e.kind with
  | unrecognizedCommand =>
    cases Keyword.near? e.token with
    | none => exact hhint
    | some k =>
      have hmean : OneLine "Did you mean '" := by decide
      have hclose : OneLine "'?" := by decide
      exact (hmean.append (oneLine_usage k)).append hclose
  | malformedArgument =>
    cases hu : Diagnosis.usageOf? e with
    | none => exact hhint
    | some usage => exact husage.append (hknown usage hu)
  | trailingInput =>
    cases hu : Diagnosis.usageOf? e with
    | none => exact hhint
    | some usage => exact husage.append (hknown usage hu)
  | argumentOverflow =>
    cases hu : Diagnosis.usageOf? e with
    | none => exact hhint
    | some usage =>
      have hrange : OneLine " (0 to " := by decide
      have hclose : OneLine ")" := by decide
      exact (((husage.append (hknown usage hu)).append hrange).append (oneLine_write _)).append
        hclose

theorem oneLine_suggestionPart (message : String) {suggestion : String} (h : OneLine suggestion) :
    OneLine (Diagnosis.suggestionPart message (some suggestion)) := by
  have hspace : OneLine " " := by decide
  have hstop : OneLine ". " := by decide
  unfold Diagnosis.suggestionPart
  dsimp only
  split
  · decide
  split
  · exact hspace.append h
  · exact hstop.append h

/-- What is reported of a rejected line, without style. -/
def reportText (a : Appearance) (e : ParseError) : String :=
  (Report.of a (a.fault (.parse e)) none).text

theorem reportText_eq (a : Appearance) (e : ParseError) :
    reportText a e = "[scanshell] " ++ Json.quote e.line ++ ": " ++
      (e.message ++ Diagnosis.suggestionPart e.message (some (Diagnosis.suggestion e))) := by
  have hopening : "[scanshell] " ++ Json.quote e.line ++ ": " =
      "[scanshell] " ++ (Json.quote e.line ++ ": ") := String.append_assoc
  rw [hopening, reportText, ReportContext.text_of]
  rfl

/-- The report of a rejected line is one line. -/
theorem oneLine_reportText (a : Appearance) {line : String} {e : ParseError}
    (h : Command.parse line = .error e) : OneLine (reportText a e) := by
  obtain ⟨r, hr, rfl⟩ := Rejections.exists_rejection_of_parse h
  have htag : OneLine "[scanshell] " := by decide
  have hcolon : OneLine ": " := by decide
  have hmessage := oneLine_message (oneLine_of_blames (Rejections.blames_of_ofTokens hr))
  rw [reportText_eq]
  exact ((htag.append (oneLine_quote line)).append hcolon).append
    (hmessage.append (oneLine_suggestionPart _ (oneLine_suggestion _)))

theorem oneLine_canonical (c : Command) : OneLine c.canonical :=
  unbroken_of_forall (p := fun d => !isBlank d || d == ' ') rfl rfl fun d hd => by
    rcases RoundTrip.solid_or_space hd with hsolid | rfl
    · rw [hsolid]
      rfl
    · rfl

/-- Either message that the log gets for a line is one line. -/
theorem oneLine_of_mem_messages {line : Batch.Line} {message : String}
    (h : message ∈ Cli.Parse.messages ⟨line, Command.parse line.text⟩) : OneLine message := by
  have hinput : OneLine "User input: " := by decide
  unfold Cli.Parse.messages at h
  rw [List.mem_cons, List.mem_singleton] at h
  rcases h with rfl | rfl
  · exact hinput.append (oneLine_quote line.text)
  · cases hp : Command.parse line.text with
    | ok c =>
      have hparsed : OneLine "Parsed: " := by decide
      exact hparsed.append (oneLine_canonical c)
    | error e =>
      obtain ⟨r, hr, rfl⟩ := Rejections.exists_rejection_of_parse hp
      have hfailed : OneLine "Parse failed (" := by decide
      have hcolon : OneLine "): " := by decide
      exact ((hfailed.append (oneLine_name _)).append hcolon).append
        (oneLine_message (oneLine_of_blames (Rejections.blames_of_ofTokens hr)))

/-- The first quoted text that scanning comes to the end of; what follows it is not looked at. -/
def firstText? (s : Scan) : List Char → Option String
  | [] => none
  | c :: cs =>
    match Mark.step s c with
    | none => none
    | some next =>
      match next.marks with
      | .text t :: _ => some t
      | _ => firstText? next cs

/-- The line that a report is about. -/
def lineOf? (report : String) : Option String :=
  firstText? ⟨.between, []⟩ (report.toList.drop "[scanshell] ".length)

theorem suffix_of_cut {marks : List Mark} {next : Scan} {c : Char}
    (h : Mark.cut marks c = some next) : marks <:+ next.marks := by
  unfold Mark.cut at h
  grind [List.suffix_cons, List.suffix_refl]

/-- Marks that have been found stay. -/
theorem suffix_of_step {s next : Scan} {c : Char} (h : Mark.step s c = some next) :
    s.marks <:+ next.marks := by
  obtain ⟨mode, marks⟩ := s
  cases mode with
  | between => exact suffix_of_cut h
  | word gathered =>
    simp only [Mark.step] at h
    split at h
    · obtain rfl := Option.some.inj h
      exact List.suffix_rfl
    · obtain ⟨v, -, hcut⟩ := Option.bind_eq_some_iff.mp h
      exact (List.suffix_cons _ _).trans (suffix_of_cut hcut)
  | text units =>
    simp only [Mark.step] at h
    split at h
    · obtain rfl := Option.some.inj h
      exact List.suffix_cons _ _
    split at h
    · obtain rfl := Option.some.inj h
      exact List.suffix_rfl
    split at h
    · cases h
    · obtain rfl := Option.some.inj h
      exact List.suffix_rfl
  | escape units =>
    simp only [Mark.step] at h
    split at h
    · obtain rfl := Option.some.inj h
      exact List.suffix_rfl
    · obtain ⟨u, -, rfl⟩ := Option.map_eq_some_iff.mp h
      exact List.suffix_rfl
  | code units missing value =>
    simp only [Mark.step] at h
    obtain ⟨d, -, rfl⟩ := Option.map_eq_some_iff.mp h
    split
    · exact List.suffix_rfl
    · exact List.suffix_rfl

theorem suffix_of_foldlM {s last : Scan} {cs : List Char}
    (h : cs.foldlM Mark.step s = some last) : s.marks <:+ last.marks := by
  induction cs generalizing s with
  | nil =>
    obtain rfl := Option.some.inj h
    exact List.suffix_rfl
  | cons c cs ih =>
    rw [List.foldlM_cons] at h
    obtain ⟨next, hnext, hrest⟩ := Option.bind_eq_some_iff.mp h
    exact (suffix_of_step hnext).trans (ih hrest)

/-- Characters that lead to no mark are passed over. -/
theorem firstText?_append {s last : Scan} {cs : List Char}
    (h : cs.foldlM Mark.step s = some last) (hlast : last.marks = []) (rest : List Char) :
    firstText? s (cs ++ rest) = firstText? last rest := by
  induction cs generalizing s with
  | nil =>
    obtain rfl := Option.some.inj h
    rfl
  | cons c cs ih =>
    rw [List.foldlM_cons] at h
    obtain ⟨next, hnext, hrest⟩ := Option.bind_eq_some_iff.mp h
    have hnone : next.marks = [] := by
      have hsuffix := suffix_of_foldlM hrest
      rw [hlast] at hsuffix
      exact List.suffix_nil.mp hsuffix
    rw [List.cons_append, firstText?, hnext]
    simp only [hnone]
    exact ih hrest

/-- A quoted text is read back from in front of anything. -/
theorem firstText?_quote (s : String) (rest : List Char) :
    firstText? ⟨.between, []⟩ ((Json.quote s).toList ++ rest) = some s := by
  have hopen : (['"'] ++ s.toList.flatMap Json.escape).foldlM Mark.step ⟨.between, []⟩ =
      some ⟨.text ((s.toList.flatMap Text.unitsOf).reverse ++ []), []⟩ := by
    rw [List.foldlM_append]
    exact JsonMarks.foldlM_escapes s.toList [] []
  have hclose : Mark.step ⟨.text ((s.toList.flatMap Text.unitsOf).reverse ++ []), []⟩ '"' =
      some ⟨.between, [.text s]⟩ := by
    rw [Mark.step]
    simp only [↓reduceIte, List.append_nil, List.reverse_reverse, Text.ofUnits_flatMap,
      String.ofList_toList]
  have hquote : (Json.quote s).toList ++ rest =
      (['"'] ++ s.toList.flatMap Json.escape) ++ '"' :: rest := by
    simp [Json.quote]
  rw [hquote, firstText?_append hopen rfl, firstText?, hclose]

theorem lineOf?_reportText (a : Appearance) (e : ParseError) :
    lineOf? (reportText a e) = some e.line := by
  have hbody : (reportText a e).toList.drop "[scanshell] ".length =
      (Json.quote e.line).toList ++ (": " ++ (e.message ++ Diagnosis.suggestionPart e.message
        (some (Diagnosis.suggestion e)))).toList := by
    rw [reportText_eq, String.append_assoc, String.append_assoc, String.toList_append,
      String.toList_append]
    exact List.drop_left' String.length_toList
  rw [lineOf?, hbody, firstText?_quote]

theorem line_of_parse {line : String} {e : ParseError} (h : Command.parse line = .error e) :
    e.line = line := by
  obtain ⟨r, -, rfl⟩ := Rejections.exists_rejection_of_parse h
  rfl

/-- A rejected line, whatever it holds, is reported on one line that begins with the quoted line and
from which the line can be read back, so no other line is reported so. The log tells it on single
lines too. -/
theorem report_of_rejected (a : Appearance) (number : Int) {line : String} {e : ParseError}
    (h : Command.parse line = .error e) :
    OneLine (reportText a e) ∧
      (∃ told, reportText a e = "[scanshell] " ++ Json.quote line ++ ": " ++ told) ∧
      lineOf? (reportText a e) = some line ∧
      (∀ (b : Appearance) (line' : String) (e' : ParseError), Command.parse line' = .error e' →
        reportText b e' = reportText a e → line' = line) ∧
      ∀ message ∈ Cli.Parse.messages ⟨⟨number, line⟩, Command.parse line⟩, OneLine message := by
  have hline := line_of_parse h
  have hread : lineOf? (reportText a e) = some line := by rw [lineOf?_reportText, hline]
  refine ⟨oneLine_reportText a h, ⟨_, hline ▸ reportText_eq a e⟩, hread, ?_,
    fun message hm => oneLine_of_mem_messages hm⟩
  intro b line' e' h' hsame
  rw [← hsame, lineOf?_reportText, line_of_parse h'] at hread
  exact Option.some.inj hread

/-- A line of two lines with a quote and a backslash in it. -/
theorem report_of_rejected_broken :
    ∃ e : ParseError, Command.parse "exit\n\"\\" = .error e ∧
      OneLine (reportText ⟨true, true, Engine.plain.stack⟩ e) ∧
      lineOf? (reportText ⟨true, true, Engine.plain.stack⟩ e) = some "exit\n\"\\" := by
  have h : Command.parse "exit\n\"\\" = .error {
      kind := .trailingInput
      message := "Command 'exit' takes no arguments, found '\"\\'"
      token := "\"\\"
      position := 5
      line := "exit\n\"\\"
      keyword? := some "exit" } := by
    rfl
  obtain ⟨hone, -, hread, -⟩ := report_of_rejected ⟨true, true, Engine.plain.stack⟩ 1 h
  exact ⟨_, h, hone, hread⟩

end DeviceShell.Proofs.ReportLine
