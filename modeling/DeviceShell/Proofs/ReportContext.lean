import DeviceShell.Report.Diagnosis

/-!
# What a context adds to a report

A report is put together from what a fault is classified as, from what the fault knows about where it
arose, and from what the caller adds. Of the two contexts only a line is ever seen: the caller's, even an
empty one, else the fault's own. Message and suggestion were settled with the classification, so they
stand behind every line in the same words, and a keyword makes no difference any more.
-/
namespace DeviceShell.Proofs.ReportContext

open Diagnosis (merge ofCause withKeyword withLine)
open Text (append_ne_empty)

/-- The suggestion of a diagnosis. -/
def advice? (d : Diagnosis) : Option String := d.details?.bind Details.suggestion?

/-- The line a diagnosis is about. -/
def line? (d : Diagnosis) : Option String := d.details?.bind Details.line?

/-- What stands between the tag of the program and the message. -/
def opening (line? : Option String) : String :=
  line?.elim "" fun line => (Json.str line).compact ++ ": "

/-- Message and suggestion as they are put together: the suggestion follows the full stop of a message
or one that is added. -/
inductive Body (d : Diagnosis) : String → Prop
  | alone (h : advice? d = none) : Body d d.message
  | afterStop {advice start : String} (h : advice? d = some advice)
      (hstop : d.message = start ++ ".") : Body d (d.message ++ " " ++ advice)
  | withStop {advice : String} (h : advice? d = some advice)
      (hstop : ∀ start, d.message ≠ start ++ ".") : Body d (d.message ++ ". " ++ advice)

/-- The second diagnosis is the first in a context with this line. -/
structure Entered (given? : Option String) (d d' : Diagnosis) : Prop where
  kind : d'.kind = d.kind
  message : d'.message = d.message
  advice : advice? d' = advice? d
  line : line? d' = given?.or (line? d)

theorem entered_self (d : Diagnosis) : Entered none d d := ⟨rfl, rfl, rfl, rfl⟩

theorem entered_withLine (line : String) (d : Diagnosis) :
    Entered (some line) d (withLine line d) := by
  obtain ⟨kind, message, details?⟩ := d
  cases details? with
  | none => exact ⟨rfl, rfl, rfl, rfl⟩
  | some details => exact ⟨rfl, rfl, rfl, rfl⟩

/-- A keyword that is entered as well, empty or not, shows in none of the four. -/
theorem Entered.keyword {given? : Option String} {d d' : Diagnosis} (h : Entered given? d d')
    (keyword : String) :
    Entered given? d (if keyword = "" then d' else withKeyword keyword d') := by
  split
  · exact h
  · obtain ⟨kind, message, details?⟩ := d'
    cases details? with
    | none => exact ⟨h.kind, h.message, h.advice, h.line⟩
    | some details => exact ⟨h.kind, h.message, h.advice, h.line⟩

theorem entered_within (d : Diagnosis) (context? : Option Context) :
    Entered (context?.bind Context.line?) d (d.within context?) := by
  unfold Diagnosis.within
  cases context?.bind Context.line? with
  | none =>
    cases context?.bind Context.keyword? with
    | none => exact entered_self d
    | some keyword => exact (entered_self d).keyword keyword
  | some line =>
    cases context?.bind Context.keyword? with
    | none => exact entered_withLine line d
    | some keyword => exact (entered_withLine line d).keyword keyword

theorem line?_merge (own? caller? : Option Context) :
    (merge own? caller?).bind Context.line? =
      (caller?.bind Context.line?).or (own?.bind Context.line?) := by
  cases own? with
  | none => exact Option.or_none.symm
  | some own => cases caller? <;> rfl

theorem line?_ofCause (c : Cause) : line? (ofCause c) = c.context?.bind Context.line? := by
  cases c with
  | shell message context? => cases context? <;> rfl
  | _ => rfl

/-- Entering what the fault knows of its line again changes nothing. -/
theorem entered_merge (c : Cause) (caller? : Option Context) :
    Entered (caller?.bind Context.line?) (ofCause c)
      ((ofCause c).within (merge c.context? caller?)) := by
  have h := entered_within (ofCause c) (merge c.context? caller?)
  refine ⟨h.kind, h.message, h.advice, ?_⟩
  rw [h.line, line?_merge, line?_ofCause, Option.or_assoc, Option.or_self]

theorem hasStop_iff (message : String) :
    Text.hasSuffix "." message = true ↔ ∃ start, message = start ++ "." := by
  rw [Text.hasSuffix_iff]
  constructor
  · intro h
    obtain ⟨cs, hcs⟩ := h
    refine ⟨String.ofList cs, ?_⟩
    rw [← String.toList_inj, String.toList_append, String.toList_ofList, hcs]
  · intro h
    obtain ⟨start, rfl⟩ := h
    rw [String.toList_append]
    exact List.suffix_append _ _

theorem suggestion_ne_empty (e : ParseError) : Diagnosis.suggestion e ≠ "" := by
  have hhint : Diagnosis.keywordsHint ≠ "" := by decide
  unfold Diagnosis.suggestion
  split <;> split
  · exact append_ne_empty (append_ne_empty (by decide) _) _
  · exact hhint
  · exact append_ne_empty (by decide) _
  · exact hhint
  · exact append_ne_empty (by decide) _
  · exact hhint
  · exact append_ne_empty (append_ne_empty (append_ne_empty (append_ne_empty (by decide) _) _) _) _
  · exact hhint

/-- A classification never suggests the empty text. -/
theorem advice_ne_empty {c : Cause} {advice : String} (h : advice? (ofCause c) = some advice) :
    advice ≠ "" := by
  cases c with
  | parse e =>
    obtain rfl := Option.some.inj h
    exact suggestion_ne_empty e
  | config message path? =>
    obtain rfl := Option.some.inj h
    decide
  | usage message =>
    obtain rfl := Option.some.inj h
    decide
  | shell message context? => cases context? <;> cases h
  | _ => cases h

theorem body_suggestionPart {d : Diagnosis} (h : ∀ advice, advice? d = some advice → advice ≠ "") :
    Body d (d.message ++ Diagnosis.suggestionPart d.message (advice? d)) := by
  cases ha : advice? d with
  | none =>
    rw [show Diagnosis.suggestionPart d.message none = "" from rfl, String.append_empty]
    exact .alone ha
  | some advice =>
    unfold Diagnosis.suggestionPart
    dsimp only
    rw [if_neg (h advice ha)]
    by_cases hs : Text.hasSuffix "." d.message = true
    · rw [if_pos hs, ← String.append_assoc]
      obtain ⟨start, hstart⟩ := (hasStop_iff d.message).mp hs
      exact .afterStop ha hstart
    · rw [if_neg hs, ← String.append_assoc]
      apply Body.withStop ha
      intro start hstart
      exact hs ((hasStop_iff d.message).mpr ⟨start, hstart⟩)

/-- A report shows of a context no more than its line. -/
theorem text_of_entered {given? : Option String} {d d' : Diagnosis} (h : Entered given? d d') :
    d'.text = "[scanshell] " ++ opening (given?.or (line? d)) ++
      (d.message ++ Diagnosis.suggestionPart d.message (advice? d)) := by
  have hopening : Diagnosis.linePart (line? d') = opening (given?.or (line? d)) := by
    rw [h.line]
    cases given?.or (line? d) <;> rfl
  have htext : d'.text = "[scanshell] " ++ Diagnosis.linePart (line? d') ++ d'.message ++
      Diagnosis.suggestionPart d'.message (advice? d') := rfl
  rw [htext, hopening, h.message, h.advice, String.append_assoc]

theorem text_of (a : Appearance) (f : Fault) (caller? : Option Context) :
    (Report.of a f caller?).text = "[scanshell] " ++
      opening ((caller?.bind Context.line?).or (f.cause.context?.bind Context.line?)) ++
      ((ofCause f.cause).message ++
        Diagnosis.suggestionPart (ofCause f.cause).message (advice? (ofCause f.cause))) := by
  have htext := text_of_entered (entered_merge f.cause caller?)
  rwa [line?_ofCause] at htext

/-- The style is that of the classification too. -/
theorem written_of (a : Appearance) (f : Fault) (caller? : Option Context) :
    (Report.of a f caller?).written =
      Terminal.paint a.color (ofCause f.cause).style (Report.of a f caller?).text ::
        Report.traceLines a f := by
  have hstyle : ((ofCause f.cause).within (merge f.cause.context? caller?)).style =
      (ofCause f.cause).style := by
    rw [Diagnosis.style, (entered_merge f.cause caller?).kind, Diagnosis.style]
  rw [← hstyle]
  rfl

/-- Of the caller's context the whole report depends on the line only. -/
theorem report_of_line_eq (a : Appearance) (f : Fault) {caller? other? : Option Context}
    (h : caller?.bind Context.line? = other?.bind Context.line?) :
    Report.of a f caller? = Report.of a f other? := by
  have htext : (Report.of a f caller?).text = (Report.of a f other?).text := by
    rw [text_of, text_of, h]
  have hwritten : (Report.of a f caller?).written = (Report.of a f other?).written := by
    rw [written_of, written_of, htext]
  show Report.mk (Report.of a f caller?).text (Report.of a f caller?).written = _
  rw [htext, hwritten]

/-- The report of any fault, whatever the caller adds. Behind the tag stands the caller's line, else the
fault's own, and then a body that the classification alone has settled. Message and suggestion are those
of the classification in every context. What a caller adds counts for its line only. -/
theorem report_in_context (f : Fault) :
    (∃ body, Body (ofCause f.cause) body ∧ ∀ a caller?, (Report.of a f caller?).text =
      "[scanshell] " ++
        opening ((caller?.bind Context.line?).or (f.cause.context?.bind Context.line?)) ++ body) ∧
    (∀ caller?, Entered (caller?.bind Context.line?) (ofCause f.cause)
      ((ofCause f.cause).within (merge f.cause.context? caller?))) ∧
    ∀ a line? keyword?, Report.of a f (some ⟨line?, keyword?⟩) =
      Report.of a f (line?.map fun line => ⟨some line, none⟩) := by
  refine ⟨⟨_, body_suggestionPart fun _ => advice_ne_empty, ?_⟩, entered_merge f.cause, ?_⟩
  · intro a caller?
    exact text_of a f caller?
  · intro a line? keyword?
    apply report_of_line_eq
    cases line? <;> rfl

/-- An empty line is a line, and the message ends with a full stop already. -/
example : (Report.of ⟨false, false, fun _ => none⟩ ⟨.usage "No value.", none⟩
    (some ⟨some "", some "scan"⟩)).text =
      "[scanshell] \"\": No value. Run 'scanshell --help' for usage" := by
  decide +kernel

end DeviceShell.Proofs.ReportContext
