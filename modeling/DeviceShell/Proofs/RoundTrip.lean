import DeviceShell.Proofs.Grammar

/-!
# Canonical lines are read back

A command may be built with any integer, so its canonical line need not be a line of the shell. It is
one exactly when the number, if there is one, is from 0 to 2⁶⁴ − 1. Outside this range the line is
rejected for its number, which stands at offset 5 behind a keyword of four letters and one space.
What the reader produces is always in range, so reading and writing settle after one step.
-/
namespace DeviceShell.Proofs.RoundTrip

open Words (Gap Word)

/-- A command without a number, or with one that an argument may be. -/
def InRange (c : Command) : Prop := ∀ n, c.number? = some n → 0 ≤ n ∧ n ≤ 2 ^ 64 - 1

/-- A line is rejected for the word at an offset. -/
def Rejected (line : String) (kind : RejectionKind) (token : String) (position : Int) : Prop :=
  ∃ e, Command.parse line = .error e ∧ e.kind = kind ∧ e.token = token ∧ e.position = position

theorem rejected_of_ofTokens {line : String} {r : Rejection}
    (h : Command.ofTokens (Token.ofLine line) = .error r) :
    Rejected line r.kind r.token.text r.token.position :=
  ⟨_, Grammar.parse_of_ofTokens_error h, rfl, rfl, rfl⟩

theorem word_writeInt (n : Int) : Word (Numeral.writeInt n).toList := by
  cases n with
  | ofNat m => exact Grammar.word_of_run (Positional.run_write m)
  | negSucc m =>
    rw [Numeral.writeInt, String.toList_append]
    exact Words.word_cons (c := '-') rfl (Grammar.word_of_run (Positional.run_write (m + 1)))

/-- The commands with a number are written as their keyword, a space and the number. -/
theorem exists_of_number? {c : Command} {n : Int} (h : c.number? = some n) :
    ∃ (k : Keyword) (argument : String) (build : Int → Command),
      k.form = .counted argument build ∧ c = build n ∧ Text.unitLength k.text = 4 ∧
      c.canonical = k.text ++ " " ++ Numeral.writeInt n := by
  cases c with
  | scan seconds =>
    obtain rfl := Option.some.inj h
    exact ⟨.scan, "seconds", .scan, rfl, rfl, by decide, rfl⟩
  | test count =>
    obtain rfl := Option.some.inj h
    exact ⟨.test, "count", .test, rfl, rfl, by decide, rfl⟩
  | exit => cases h
  | help => cases h
  | list => cases h

/-- The only blank in a canonical line is the space. -/
theorem solid_or_space {c : Command} {d : Char} (h : d ∈ c.canonical.toList) :
    Text.isBlank d = false ∨ d = ' ' := by
  cases hn : c.number? with
  | some n =>
    obtain ⟨k, argument, build, -, -, -, hc⟩ := exists_of_number? hn
    rw [hc, String.toList_append, String.toList_append, List.mem_append, List.mem_append] at h
    rcases h with (hk | hspace) | hnumber
    · exact .inl ((Grammar.word_of_keyword k).solid d hk)
    · exact .inr (List.mem_singleton.mp hspace)
    · exact .inl ((word_writeInt n).solid d hnumber)
  | none =>
    obtain ⟨k, hk⟩ : ∃ k : Keyword, c.canonical = k.text := by
      cases c with
      | scan seconds => cases hn
      | test count => cases hn
      | exit => exact ⟨.exit, rfl⟩
      | help => exact ⟨.help, rfl⟩
      | list => exact ⟨.list, rfl⟩
    rw [hk] at h
    exact .inl ((Grammar.word_of_keyword k).solid d h)

theorem ofLine_counted {k : Keyword} {number : String} (hk : Text.unitLength k.text = 4)
    (hn : Word number.toList) :
    Token.ofLine (k.text ++ " " ++ number) = [⟨k.text, 0⟩, ⟨number, 5⟩] := by
  have hspace : Gap " ".toList := by
    intro c hc
    obtain rfl := List.mem_singleton.mp hc
    rfl
  have h : Token.ofLine ("" ++ k.text ++ " " ++ number ++ "") =
      [⟨k.text, Text.unitLength ""⟩, ⟨number, Text.unitLength ("" ++ k.text ++ " ")⟩] :=
    Words.ofLine_pair Words.gap_nil (Grammar.word_of_keyword k) hspace (List.cons_ne_nil _ _) hn
      Words.gap_nil
  have hstop : Text.unitLength ("" ++ k.text ++ " ") = 5 := by
    rw [String.empty_append, Text.unitLength, String.toList_append, Text.unitCount_append]
    rw [Text.unitLength] at hk
    rw [hk]
    rfl
  rw [hstop, String.empty_append, String.append_empty] at h
  exact h

theorem ofTokens_counted {k : Keyword} {number : String} (hk : Text.unitLength k.text = 4)
    (hn : Word number.toList) :
    Command.ofTokens (Token.ofLine (k.text ++ " " ++ number)) =
      Command.ofArguments k ⟨k.text, 0⟩ [⟨number, 5⟩] := by
  have hkey : Keyword.ofText? k.text = some k := Grammar.ofText?_eq_some_iff.mpr rfl
  rw [ofLine_counted hk hn, Command.ofTokens, hkey]

theorem parse_canonical_of_bare {c : Command} (h : c.number? = none) :
    Command.parse c.canonical = .ok c := by
  have hlone : ∀ {word : String}, Grammar.Lone word c → Command.parse word = .ok c := by
    intro word hw
    have hs : Grammar.Sentence ("" ++ word ++ "") c :=
      .lone (fun _ hc => nomatch hc) hw (fun _ hc => nomatch hc)
    rw [String.empty_append, String.append_empty] at hs
    exact Grammar.parse_of_sentence hs
  cases c with
  | scan seconds => cases h
  | test count => cases h
  | exit => exact hlone .exit
  | help => exact hlone .help
  | list => exact hlone .list

theorem parse_canonical_of_inRange {c : Command} (h : InRange c) :
    Command.parse c.canonical = .ok c := by
  cases hn : c.number? with
  | none => exact parse_canonical_of_bare hn
  | some n =>
    obtain ⟨k, argument, build, hf, rfl, hk, hc⟩ := exists_of_number? hn
    obtain ⟨hlow, hhigh⟩ := h n hn
    obtain ⟨m, rfl⟩ := Int.eq_ofNat_of_zero_le hlow
    have hm : m ≤ Numeral.limit := by
      rw [Positional.limit_eq]
      omega
    have hr := Numeral.read_write hm
    rw [hc]
    apply Grammar.parse_of_ofTokens_ok
    rw [ofTokens_counted hk (word_writeInt _), Positional.writeInt_natCast]
    simp only [Command.ofArguments, hf, hr]

theorem rejected_of_gt {c : Command} {n : Int} (hn : c.number? = some n) (h : 2 ^ 64 - 1 < n) :
    Rejected c.canonical .argumentOverflow (Numeral.writeInt n) 5 := by
  obtain ⟨k, argument, build, hf, rfl, hk, hc⟩ := exists_of_number? hn
  obtain ⟨m, rfl⟩ := Int.eq_ofNat_of_zero_le (a := n) (by omega)
  have hm : Numeral.limit < m := by
    rw [Positional.limit_eq]
    omega
  have hr := Positional.read_write_of_gt hm
  rw [hc, Positional.writeInt_natCast]
  apply rejected_of_ofTokens (r := .tooLarge k ⟨Numeral.write m, 5⟩)
  have hw : Word (Numeral.write m).toList := word_writeInt m
  rw [ofTokens_counted hk hw]
  simp only [Command.ofArguments, hf, hr]

theorem rejected_of_neg {c : Command} {n : Int} (hn : c.number? = some n) (h : n < 0) :
    Rejected c.canonical .malformedArgument (Numeral.writeInt n) 5 := by
  obtain ⟨k, argument, build, hf, rfl, hk, hc⟩ := exists_of_number? hn
  have hr := Positional.read_writeInt_of_neg h
  rw [hc]
  apply rejected_of_ofTokens (r := .notANumber k ⟨Numeral.writeInt n, 5⟩)
  rw [ofTokens_counted hk (word_writeInt n)]
  simp only [Command.ofArguments, hf, hr]

/-- Nothing that the reader produces is out of range. -/
theorem inRange_of_parse {line : String} {c : Command} (h : Command.parse line = .ok c) :
    InRange c := by
  intro n hn
  cases Grammar.sentence_of_parse h with
  | lone _ hw _ => cases hw <;> cases hn
  | counting _ hw _ _ _ hle _ =>
    cases hw <;>
    · obtain rfl := Option.some.inj hn
      omega

theorem inRange_of_parse_canonical {c d : Command} (h : Command.parse c.canonical = .ok d)
    (hd : d.same c = true) : InRange c := by
  obtain rfl := (Command.same_iff_eq d c).mp hd
  exact inRange_of_parse h

/-- A canonical line is read back exactly when the number is in range, and is rejected for its
number otherwise; what was read from any line is read back from its canonical line. -/
theorem parse_canonical (c : Command) :
    ((∃ d, Command.parse c.canonical = .ok d ∧ d.same c = true) ↔ InRange c) ∧
    (∀ n, c.number? = some n → 2 ^ 64 - 1 < n →
      Rejected c.canonical .argumentOverflow (Numeral.writeInt n) 5) ∧
    (∀ n, c.number? = some n → n < 0 →
      Rejected c.canonical .malformedArgument (Numeral.writeInt n) 5) ∧
    ∀ line, Command.parse line = .ok c →
      InRange c ∧ Command.parse c.canonical = Command.parse line := by
  refine ⟨⟨?_, ?_⟩, fun n hn h => rejected_of_gt hn h, fun n hn h => rejected_of_neg hn h, ?_⟩
  · rintro ⟨d, hd, hsame⟩
    exact inRange_of_parse_canonical hd hsame
  · intro h
    exact ⟨c, parse_canonical_of_inRange h, (Command.same_iff_eq c c).mpr rfl⟩
  · intro line h
    have hr := inRange_of_parse h
    exact ⟨hr, (parse_canonical_of_inRange hr).trans h.symm⟩

/-- A number just past the limit, a negative one, and a line in wide blanks whose command has
another canonical line. -/
theorem parse_canonical_at_limits :
    ((Command.scan (2 ^ 64)).number? = some (2 ^ 64) ∧ (2 : Int) ^ 64 - 1 < 2 ^ 64 ∧
      Rejected (Command.scan (2 ^ 64)).canonical .argumentOverflow
        (Numeral.writeInt (2 ^ 64)) 5) ∧
    ((Command.test (-7)).number? = some (-7) ∧ (-7 : Int) < 0 ∧
      Rejected (Command.test (-7)).canonical .malformedArgument (Numeral.writeInt (-7)) 5) ∧
    (Command.parse "\u3000scan\u00a0007 " = .ok (.scan 7) ∧ InRange (.scan 7) ∧
      Command.parse (Command.scan 7).canonical = Command.parse "\u3000scan\u00a0007 ") := by
  have hline : Command.parse "\u3000scan\u00a0007 " = .ok (.scan 7) := by rfl
  refine ⟨⟨rfl, by decide, ?_⟩, ⟨rfl, by decide, ?_⟩, hline, ?_⟩
  · exact (parse_canonical (.scan (2 ^ 64))).2.1 _ rfl (by decide)
  · exact (parse_canonical (.test (-7))).2.2.1 _ rfl (by decide)
  · exact (parse_canonical (.scan 7)).2.2.2 _ hline

end DeviceShell.Proofs.RoundTrip
