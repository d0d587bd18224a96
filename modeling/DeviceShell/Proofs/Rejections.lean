import DeviceShell.Command.Parser
import DeviceShell.Proofs.Words

/-!
# Where a rejection points

A rejected line is rejected for one of its words, for the place behind its first word, or for having
no words. Whichever it is, the place lies in the line.
-/
namespace DeviceShell.Proofs.Rejections

open Text (unitLength)

theorem stop_le_of_mem_ofLine {line : String} {t : Token} (h : t ∈ Token.ofLine line) :
    t.stop ≤ unitLength line := by
  have hcut := Words.ofLine_eq_iff.mp (rfl : Token.ofLine line = Token.ofLine line)
  have hstop := Words.stop_le_of_mem_segmented hcut (List.mem_map_of_mem (f := Words.spanOf) h)
  rw [Nat.zero_add] at hstop
  exact hstop

/-- What a rejection is about: no word, a word, or the place behind the first one. -/
inductive Blames (ts : List Token) : Token → Prop
  | nothing : Blames ts ⟨"", 0⟩
  | word {t : Token} (h : t ∈ ts) : Blames ts t
  | missing {t : Token} (h : t ∈ ts) : Blames ts ⟨"", t.stop⟩

theorem blames_of_ofArguments {k : Keyword} {head : Token} {rest : List Token} {r : Rejection}
    (h : Command.ofArguments k head rest = .error r) : Blames (head :: rest) r.token := by
  rw [Command.ofArguments.eq_def] at h
  split at h
  · cases h
  · obtain rfl := Except.error.inj h
    exact .word (List.mem_cons_of_mem _ List.mem_cons_self)
  · obtain rfl := Except.error.inj h
    exact .missing List.mem_cons_self
  · split at h
    · cases h
    · obtain rfl := Except.error.inj h
      exact .word (List.mem_cons_of_mem _ List.mem_cons_self)
    · obtain rfl := Except.error.inj h
      exact .word (List.mem_cons_of_mem _ List.mem_cons_self)
  · obtain rfl := Except.error.inj h
    exact .word (List.mem_cons_of_mem _ (List.mem_cons_of_mem _ List.mem_cons_self))

theorem blames_of_ofTokens {ts : List Token} {r : Rejection}
    (h : Command.ofTokens ts = .error r) : Blames ts r.token := by
  cases ts with
  | nil =>
    obtain rfl := Except.error.inj h
    exact .nothing
  | cons head rest =>
    rw [Command.ofTokens] at h
    cases hk : Keyword.ofText? head.text with
    | none =>
      rw [hk] at h
      obtain rfl := Except.error.inj h
      exact .word List.mem_cons_self
    | some k =>
      rw [hk] at h
      exact blames_of_ofArguments h

theorem stop_le_of_blames {line : String} {t : Token} (h : Blames (Token.ofLine line) t) :
    t.stop ≤ unitLength line := by
  cases h with
  | nothing => exact Nat.zero_le _
  | word h => exact stop_le_of_mem_ofLine h
  | missing h =>
    have hstop := stop_le_of_mem_ofLine h
    exact hstop

theorem exists_rejection_of_parse {line : String} {e : ParseError}
    (h : Command.parse line = .error e) :
    ∃ r, Command.ofTokens (Token.ofLine line) = .error r ∧ e = .ofRejection line r := by
  rw [Command.parse] at h
  cases hr : Command.ofTokens (Token.ofLine line) with
  | ok c => rw [hr] at h; cases h
  | error r =>
    rw [hr] at h
    exact ⟨r, rfl, (Except.error.inj h).symm⟩

/-- The place of an error lies in its line. -/
theorem position_le_of_parse {line : String} {e : ParseError}
    (h : Command.parse line = .error e) : e.position.natAbs ≤ unitLength line := by
  obtain ⟨r, hr, rfl⟩ := exists_rejection_of_parse h
  have hstop := stop_le_of_blames (blames_of_ofTokens hr)
  rw [Token.stop] at hstop
  change (r.token.position : Int).natAbs ≤ unitLength line
  rw [Int.natAbs_natCast]
  omega

end DeviceShell.Proofs.Rejections
