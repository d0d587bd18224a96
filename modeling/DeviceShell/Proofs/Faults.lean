import DeviceShell.Proofs.Grammar
import DeviceShell.Proofs.Rejections

/-!
# Which fault of a line is told

A line that is no sentence may be wrong in several ways at once: its number may be malformed or too
large while there are words too many, and its first word may be no keyword whatever follows. `Faulty`
lists what is told of which words, message and place included, and knows neither the tables of the
reader nor the order of its checks. `parse_eq_error_iff_faulty` says that a line is refused exactly as
the list has it. The entries of the list exclude each other (`faulty_unique`), and a line with none of
these faults is accepted.
-/
namespace DeviceShell.Proofs.Faults

open Positional (Run placeValue)
open Words (Segmented spanOf)

/-- The words that stand alone. -/
def loneWords : List String := ["exit", "quit", "help", "list"]

/-- The words that take a number, and how the number is called for. -/
inductive Takes : String → String → Prop
  | scan : Takes "scan" "<seconds>"
  | test : Takes "test" "<count>"

/-- What is told of a line with these words. -/
inductive Faulty (line : String) : List Token → ParseError → Prop
  | blank : Faulty line [] {
      kind := .unrecognizedCommand
      message := "Expected a command but the line is empty"
      token := ""
      position := 0
      line := line
      keyword? := none }
  /-- The first word is no keyword, whatever follows it. -/
  | unknown {head : Token} {rest : List Token} (hlone : head.text ∉ loneWords)
      (htakes : ∀ number, ¬ Takes head.text number) : Faulty line (head :: rest) {
      kind := .unrecognizedCommand
      message := "Unknown command '" ++ head.text ++ "'"
      token := head.text
      position := head.position
      line := line
      keyword? := none }
  | trailing {head next : Token} {rest : List Token} (h : head.text ∈ loneWords) :
      Faulty line (head :: next :: rest) {
      kind := .trailingInput
      message := "Command '" ++ head.text ++ "' takes no arguments, found '" ++ next.text ++ "'"
      token := next.text
      position := next.position
      line := line
      keyword? := some head.text }
  /-- The number is missing: the place is the end of the word that takes it. -/
  | missing {head : Token} {number : String} (h : Takes head.text number) : Faulty line [head] {
      kind := .malformedArgument
      message := "Command '" ++ head.text ++ "' requires " ++ number
      token := ""
      position := (head.position + Text.unitLength head.text : Nat)
      line := line
      keyword? := some head.text }
  /-- There are words behind the first one that could be the number, be it one or not. -/
  | surplus {head first second : Token} {more : List Token} {number : String}
      (h : Takes head.text number) : Faulty line (head :: first :: second :: more) {
      kind := .malformedArgument
      message := "Command '" ++ head.text ++ "' takes exactly one argument, got " ++
        Numeral.write (first :: second :: more).length
      token := second.text
      position := second.position
      line := line
      keyword? := some head.text }
  | malformed {head word : Token} {number : String} (h : Takes head.text number)
      (hrun : ¬ Run word.text.toList) : Faulty line [head, word] {
      kind := .malformedArgument
      message := "Invalid " ++ number ++ " for '" ++ head.text ++ "': '" ++ word.text ++
        "' is not a non-negative integer"
      token := word.text
      position := word.position
      line := line
      keyword? := some head.text }
  | tooLarge {head word : Token} {number : String} (h : Takes head.text number)
      (hrun : Run word.text.toList) (hlimit : 2 ^ 64 - 1 < placeValue word.text.toList) :
      Faulty line [head, word] {
      kind := .argumentOverflow
      message := "Argument '" ++ word.text ++ "' for '" ++ head.text ++ "' exceeds " ++
        "18446744073709551615"
      token := word.text
      position := word.position
      line := line
      keyword? := some head.text }

theorem mem_loneWords_iff {word : String} :
    word ∈ loneWords ↔ ∃ (k : Keyword) (c : Command), word = k.text ∧ k.form = .bare c := by
  constructor
  · intro h
    simp only [loneWords, List.mem_cons, List.not_mem_nil, or_false] at h
    rcases h with rfl | rfl | rfl | rfl
    · exact ⟨.exit, .exit, rfl, rfl⟩
    · exact ⟨.quit, .exit, rfl, rfl⟩
    · exact ⟨.help, .help, rfl, rfl⟩
    · exact ⟨.list, .list, rfl, rfl⟩
  · rintro ⟨k, c, rfl, h⟩
    cases k with
    | scan => cases h
    | test => cases h
    | _ => decide

theorem takes_iff {word number : String} :
    Takes word number ↔ ∃ (k : Keyword) (argument : String) (build : Int → Command),
      word = k.text ∧ k.form = .counted argument build ∧ number = k.placeholder := by
  constructor
  · rintro (_ | _)
    · exact ⟨.scan, "seconds", .scan, rfl, rfl, by decide⟩
    · exact ⟨.test, "count", .test, rfl, rfl, by decide⟩
  · rintro ⟨k, argument, build, rfl, h, rfl⟩
    cases k with
    | scan => exact .scan
    | test => exact .test
    | _ => cases h

theorem takes_text {k : Keyword} {argument : String} {build : Int → Command}
    (h : k.form = .counted argument build) : Takes k.text k.placeholder :=
  takes_iff.mpr ⟨k, argument, build, rfl, h, rfl⟩

/-- A word that the reader knows is in one of the two groups. -/
theorem ofText?_eq_none_iff {word : String} :
    Keyword.ofText? word = none ↔ word ∉ loneWords ∧ ∀ number, ¬ Takes word number := by
  constructor
  · intro h
    have hno : ∀ k : Keyword, word ≠ k.text := by
      intro k hk
      rw [Grammar.ofText?_eq_some_iff.mpr hk] at h
      cases h
    constructor
    · intro hlone
      obtain ⟨k, _, hk, _⟩ := mem_loneWords_iff.mp hlone
      exact hno k hk
    · intro number htakes
      obtain ⟨k, _, _, hk, _⟩ := takes_iff.mp htakes
      exact hno k hk
  · rintro ⟨hlone, htakes⟩
    cases hk : Keyword.ofText? word with
    | none => rfl
    | some k =>
      obtain rfl := Grammar.ofText?_eq_some_iff.mp hk
      cases hf : k.form with
      | bare c => exact absurd (mem_loneWords_iff.mpr ⟨k, c, rfl, hf⟩) hlone
      | counted argument build => exact absurd (takes_text hf) (htakes _)

/-- The bound as it stands in the message. -/
theorem write_limit : Numeral.write Numeral.limit = "18446744073709551615" := by
  decide

/-- The message of the bound, its number written out. -/
theorem ofRejection_tooLarge (line : String) (k : Keyword) (word : Token) :
    ParseError.ofRejection line (.tooLarge k word) = {
      kind := .argumentOverflow
      message := "Argument '" ++ word.text ++ "' for '" ++ k.text ++ "' exceeds " ++
        "18446744073709551615"
      token := word.text
      position := word.position
      line := line
      keyword? := some k.text } := by
  rw [← write_limit]
  rfl

theorem faulty_of_ofArguments {line : String} {k : Keyword} {position : Nat} {rest : List Token}
    {r : Rejection} (h : Command.ofArguments k ⟨k.text, position⟩ rest = .error r) :
    Faulty line (⟨k.text, position⟩ :: rest) (.ofRejection line r) := by
  rw [Command.ofArguments.eq_def] at h
  split at h
  · cases h
  · next c word more hf =>
    obtain rfl := Except.error.inj h
    exact .trailing (mem_loneWords_iff.mpr ⟨k, c, rfl, hf⟩)
  · next argument build hf =>
    obtain rfl := Except.error.inj h
    exact .missing (takes_text hf)
  · next argument build word hf =>
    cases hr : Numeral.read word.text with
    | value n => rw [hr] at h; cases h
    | overflow =>
      rw [hr] at h
      obtain rfl := Except.error.inj h
      obtain ⟨hrun, hlimit⟩ := Positional.read_eq_overflow_iff.mp hr
      rw [ofRejection_tooLarge]
      exact .tooLarge (takes_text hf) hrun hlimit
    | invalid =>
      rw [hr] at h
      obtain rfl := Except.error.inj h
      exact .malformed (takes_text hf) (Positional.read_eq_invalid_iff.mp hr)
  · next argument build first second more hf =>
    obtain rfl := Except.error.inj h
    exact .surplus (takes_text hf)

theorem faulty_of_ofTokens {line : String} {ts : List Token} {r : Rejection}
    (h : Command.ofTokens ts = .error r) : Faulty line ts (.ofRejection line r) := by
  cases ts with
  | nil =>
    obtain rfl := Except.error.inj h
    exact .blank
  | cons head rest =>
    rw [Command.ofTokens] at h
    cases hk : Keyword.ofText? head.text with
    | none =>
      rw [hk] at h
      obtain rfl := Except.error.inj h
      obtain ⟨hlone, htakes⟩ := ofText?_eq_none_iff.mp hk
      exact .unknown hlone htakes
    | some k =>
      rw [hk] at h
      obtain ⟨text, position⟩ := head
      obtain rfl := Grammar.ofText?_eq_some_iff.mp hk
      exact faulty_of_ofArguments h

theorem ofTokens_of_keyword {head : Token} {k : Keyword} (h : head.text = k.text)
    (rest : List Token) : Command.ofTokens (head :: rest) = Command.ofArguments k head rest := by
  rw [Command.ofTokens, Grammar.ofText?_eq_some_iff.mpr h]

/-- The rejection that an entry of the list reports. -/
theorem exists_rejection_of_faulty {line : String} {ts : List Token} {e : ParseError}
    (h : Faulty line ts e) :
    ∃ r, Command.ofTokens ts = .error r ∧ e = .ofRejection line r := by
  cases h with
  | blank => exact ⟨.blank, rfl, rfl⟩
  | @unknown head rest hlone htakes =>
    refine ⟨.unknownKeyword head, ?_, rfl⟩
    rw [Command.ofTokens, ofText?_eq_none_iff.mpr ⟨hlone, htakes⟩]
  | @trailing head next rest hlone =>
    obtain ⟨k, c, hk, hf⟩ := mem_loneWords_iff.mp hlone
    refine ⟨.trailing k next, ?_, ?_⟩
    · simp only [ofTokens_of_keyword hk, Command.ofArguments, hf]
    · rw [hk]
      rfl
  | @missing head number htakes =>
    obtain ⟨k, argument, build, hk, hf, rfl⟩ := takes_iff.mp htakes
    refine ⟨.missingArgument k head.stop, ?_, ?_⟩
    · simp only [ofTokens_of_keyword hk, Command.ofArguments, hf]
    · rw [Token.stop, hk]
      rfl
  | @surplus head first second more number htakes =>
    obtain ⟨k, argument, build, hk, hf, rfl⟩ := takes_iff.mp htakes
    refine ⟨.surplus k second (more.length + 2), ?_, ?_⟩
    · simp only [ofTokens_of_keyword hk, Command.ofArguments, hf]
    · rw [hk]
      rfl
  | @malformed head word number htakes hrun =>
    obtain ⟨k, argument, build, hk, hf, rfl⟩ := takes_iff.mp htakes
    refine ⟨.notANumber k word, ?_, ?_⟩
    · simp only [ofTokens_of_keyword hk, Command.ofArguments, hf,
        Positional.read_eq_invalid_iff.mpr hrun]
    · rw [hk]
      rfl
  | @tooLarge head word number htakes hrun hlimit =>
    obtain ⟨k, argument, build, hk, hf, rfl⟩ := takes_iff.mp htakes
    refine ⟨.tooLarge k word, ?_, ?_⟩
    · simp only [ofTokens_of_keyword hk, Command.ofArguments, hf,
        Positional.read_eq_overflow_iff.mpr ⟨hrun, hlimit⟩]
    · rw [hk, ofRejection_tooLarge]

/-- Words are on the list once at most: no two entries compete for them. -/
theorem faulty_unique {line : String} {ts : List Token} {e e' : ParseError}
    (h : Faulty line ts e) (h' : Faulty line ts e') : e = e' := by
  obtain ⟨r, hr, rfl⟩ := exists_rejection_of_faulty h
  obtain ⟨r', hr', rfl⟩ := exists_rejection_of_faulty h'
  rw [hr] at hr'
  obtain rfl := Except.error.inj hr'
  rfl

theorem faulty_of_parse {line : String} {e : ParseError} (h : Command.parse line = .error e) :
    Faulty line (Token.ofLine line) e := by
  obtain ⟨r, hr, rfl⟩ := Rejections.exists_rejection_of_parse h
  exact faulty_of_ofTokens hr

theorem parse_of_faulty {line : String} {e : ParseError} (h : Faulty line (Token.ofLine line) e) :
    Command.parse line = .error e := by
  obtain ⟨r, hr, rfl⟩ := exists_rejection_of_faulty h
  exact Grammar.parse_of_ofTokens_error hr

/-- A line is refused exactly as its words are on the list. -/
theorem parse_eq_error_iff_faulty (line : String) (e : ParseError) :
    Command.parse line = .error e ↔
      ∃ ts : List Token, Segmented 0 line.toList (ts.map spanOf) ∧ Faulty line ts e := by
  constructor
  · intro h
    exact ⟨Token.ofLine line, Words.ofLine_eq_iff.mp rfl, faulty_of_parse h⟩
  · rintro ⟨ts, hts, hfaulty⟩
    rw [← Words.ofLine_eq_iff.mpr hts] at hfaulty
    exact parse_of_faulty hfaulty

/-- Two words behind one that takes a number: that there are two is told, not that one is no
number and the other too large. -/
example : Command.parse "scan x 99999999999999999999" = .error {
    kind := .malformedArgument
    message := "Command 'scan' takes exactly one argument, got 2"
    token := "99999999999999999999"
    position := 7
    line := "scan x 99999999999999999999"
    keyword? := some "scan" } := by
  rfl

end DeviceShell.Proofs.Faults
