import DeviceShell.Command.Parser
import DeviceShell.Proofs.Positional
import DeviceShell.Proofs.Words

/-!
# The lines of the shell

`Sentence line c` says that a line is a sentence of the shell and means the command `c`. It lists
the twenty-five blanks, the words and the digits, and knows neither tokens nor offsets nor the
tables that the reader looks words up in. The main statement is that the reader accepts exactly the
sentences, each with its meaning; a rejected line is no sentence for any command.
-/
namespace DeviceShell.Proofs.Grammar

open Positional (Run placeValue)
open Words (Gap Word)

/-- The blank characters. -/
def blanks : List Char :=
  ['\t', '\n', '\x0b', '\x0c', '\r', ' ', '\u00a0', '\u1680', '\u2000', '\u2001', '\u2002',
    '\u2003', '\u2004', '\u2005', '\u2006', '\u2007', '\u2008', '\u2009', '\u200a', '\u2028',
    '\u2029', '\u202f', '\u205f', '\u3000', '\ufeff']

/-- Any number of blanks. -/
def Blank (s : String) : Prop := ∀ c ∈ s.toList, c ∈ blanks

/-- The words that are a command by themselves. -/
inductive Lone : String → Command → Prop
  | exit : Lone "exit" .exit
  | quit : Lone "quit" .exit
  | help : Lone "help" .help
  | list : Lone "list" .list

/-- The words that make a command of a number. -/
inductive Counting : String → (Int → Command) → Prop
  | scan : Counting "scan" .scan
  | test : Counting "test" .test

/-- The sentences and their meanings. The number may have any number of leading zeros. -/
inductive Sentence : String → Command → Prop
  | lone {lead word trail : String} {c : Command} (hl : Blank lead) (hw : Lone word c)
      (ht : Blank trail) : Sentence (lead ++ word ++ trail) c
  | counting {lead word gap number trail : String} {build : Int → Command} (hl : Blank lead)
      (hw : Counting word build) (hg : Blank gap) (hne : gap ≠ "") (hr : Run number.toList)
      (hn : placeValue number.toList ≤ 2 ^ 64 - 1) (ht : Blank trail) :
      Sentence (lead ++ word ++ gap ++ number ++ trail) (build (placeValue number.toList : Nat))

theorem isBlank_iff_mem_blanks {c : Char} : Text.isBlank c = true ↔ c ∈ blanks := by
  constructor
  · intro h
    have hn : c.toNat ∈ blanks.map Char.toNat := by
      simp only [Text.isBlank, Bool.or_eq_true, Bool.and_eq_true, decide_eq_true_eq,
        beq_iff_eq] at h
      simp only [blanks, List.map_cons, List.map_nil, List.mem_cons, List.not_mem_nil, or_false,
        Char.reduceToNat]
      omega
    obtain ⟨d, hd, he⟩ := List.mem_map.mp hn
    rwa [Char.toNat_inj.mp he] at hd
  · intro h
    have hall : blanks.all Text.isBlank = true := by decide
    exact List.all_eq_true.mp hall c h

theorem gap_iff_blank {s : String} : Gap s.toList ↔ Blank s :=
  forall₂_congr fun _ _ => isBlank_iff_mem_blanks

theorem word_of_run {cs : List Char} (h : Run cs) : Word cs :=
  ⟨h.nonempty, fun c hc => Positional.isBlank_of_mem_digits (h.mem_digits c hc)⟩

theorem word_of_keyword (k : Keyword) : Word k.text.toList := by
  have hne : k.text.toList ≠ [] := by cases k <;> decide
  have hall : (k.text.toList.all fun c => !Text.isBlank c) = true := by cases k <;> decide
  refine ⟨hne, fun c hc => ?_⟩
  have hsolid := List.all_eq_true.mp hall c hc
  rwa [Bool.not_eq_true'] at hsolid

theorem ofText?_eq_some_iff {s : String} {k : Keyword} :
    Keyword.ofText? s = some k ↔ s = k.text := by
  constructor
  · intro h
    have hk := List.find?_some h
    exact (of_decide_eq_true hk).symm
  · rintro rfl
    cases k <;> rfl

theorem lone_iff {word : String} {c : Command} :
    Lone word c ↔ ∃ k : Keyword, word = k.text ∧ k.form = .bare c := by
  constructor
  · rintro (_ | _ | _ | _)
    · exact ⟨.exit, rfl, rfl⟩
    · exact ⟨.quit, rfl, rfl⟩
    · exact ⟨.help, rfl, rfl⟩
    · exact ⟨.list, rfl, rfl⟩
  · rintro ⟨k, rfl, h⟩
    cases k with
    | exit => cases h; exact .exit
    | quit => cases h; exact .quit
    | help => cases h; exact .help
    | list => cases h; exact .list
    | _ => cases h

theorem counting_iff {word : String} {build : Int → Command} :
    Counting word build ↔
      ∃ (k : Keyword) (argument : String), word = k.text ∧ k.form = .counted argument build := by
  constructor
  · rintro (_ | _)
    · exact ⟨.scan, "seconds", rfl, rfl⟩
    · exact ⟨.test, "count", rfl, rfl⟩
  · rintro ⟨k, argument, rfl, h⟩
    cases k with
    | scan => cases h; exact .scan
    | test => cases h; exact .test
    | _ => cases h

theorem ofArguments_bare_eq_ok_iff {k : Keyword} {head : Token} {rest : List Token}
    {built c : Command} (hk : k.form = .bare built) :
    Command.ofArguments k head rest = .ok c ↔ rest = [] ∧ c = built := by
  cases rest with
  | nil =>
    simp only [Command.ofArguments, hk, Except.ok.injEq, true_and]
    exact eq_comm
  | cons word more => simp [Command.ofArguments, hk]

theorem ofArguments_counted_eq_ok_iff {k : Keyword} {head : Token} {rest : List Token}
    {argument : String} {build : Int → Command} {c : Command}
    (hk : k.form = .counted argument build) :
    Command.ofArguments k head rest = .ok c ↔
      ∃ (word : Token) (n : Nat), rest = [word] ∧ Numeral.read word.text = .value n ∧
        c = build n := by
  cases rest with
  | nil => simp [Command.ofArguments, hk]
  | cons word more =>
    cases more with
    | nil =>
      cases hr : Numeral.read word.text with
      | value n =>
        simp only [Command.ofArguments, hk, hr, Except.ok.injEq]
        constructor
        · rintro rfl
          exact ⟨word, n, rfl, hr, rfl⟩
        · rintro ⟨other, m, ho, hm, rfl⟩
          obtain rfl := (List.cons.inj ho).1
          rw [hr, Numeral.Reading.value.injEq] at hm
          rw [hm]
      | overflow => simp [Command.ofArguments, hk, hr]
      | invalid => simp [Command.ofArguments, hk, hr]
    | cons extra more => simp [Command.ofArguments, hk]

/-- A line without words is nothing, and the first word has to be a keyword. -/
theorem ofTokens_eq_ok_iff {ts : List Token} {c : Command} :
    Command.ofTokens ts = .ok c ↔
      ∃ (head : Token) (rest : List Token) (k : Keyword), ts = head :: rest ∧
        head.text = k.text ∧ Command.ofArguments k head rest = .ok c := by
  cases ts with
  | nil => simp [Command.ofTokens]
  | cons head rest =>
    rw [Command.ofTokens]
    constructor
    · intro h
      cases hk : Keyword.ofText? head.text with
      | none => rw [hk] at h; cases h
      | some k =>
        rw [hk] at h
        exact ⟨head, rest, k, rfl, ofText?_eq_some_iff.mp hk, h⟩
    · rintro ⟨head', rest', k, he, hk, h⟩
      obtain ⟨rfl, rfl⟩ := List.cons.inj he
      rw [ofText?_eq_some_iff.mpr hk]
      exact h

theorem parse_of_ofTokens_ok {line : String} {c : Command}
    (h : Command.ofTokens (Token.ofLine line) = .ok c) : Command.parse line = .ok c := by
  rw [Command.parse, h]
  rfl

theorem parse_of_ofTokens_error {line : String} {r : Rejection}
    (h : Command.ofTokens (Token.ofLine line) = .error r) :
    Command.parse line = .error (.ofRejection line r) := by
  rw [Command.parse, h]
  rfl

theorem parse_eq_ok_iff_ofTokens {line : String} {c : Command} :
    Command.parse line = .ok c ↔ Command.ofTokens (Token.ofLine line) = .ok c := by
  cases h : Command.ofTokens (Token.ofLine line) with
  | ok d => rw [parse_of_ofTokens_ok h, Except.ok.injEq, Except.ok.injEq]
  | error r => rw [parse_of_ofTokens_error h]; exact ⟨nofun, nofun⟩

/-- Two words are a command, or one is. -/
theorem parse_eq_ok_iff {line : String} {c : Command} :
    Command.parse line = .ok c ↔
      (∃ (t : Token) (k : Keyword), Token.ofLine line = [t] ∧ t.text = k.text ∧
        k.form = .bare c) ∨
      ∃ (t u : Token) (k : Keyword) (argument : String) (build : Int → Command) (n : Nat),
        Token.ofLine line = [t, u] ∧ t.text = k.text ∧ k.form = .counted argument build ∧
        Numeral.read u.text = .value n ∧ c = build n := by
  rw [parse_eq_ok_iff_ofTokens, ofTokens_eq_ok_iff]
  constructor
  · rintro ⟨head, rest, k, hts, htext, h⟩
    cases hk : k.form with
    | bare built =>
      obtain ⟨rfl, rfl⟩ := (ofArguments_bare_eq_ok_iff hk).mp h
      exact .inl ⟨head, k, hts, htext, hk⟩
    | counted argument build =>
      obtain ⟨word, n, rfl, hr, rfl⟩ := (ofArguments_counted_eq_ok_iff hk).mp h
      exact .inr ⟨head, word, k, argument, build, n, hts, htext, hk, hr, rfl⟩
  · rintro (⟨t, k, hts, htext, hk⟩ | ⟨t, u, k, argument, build, n, hts, htext, hk, hr, rfl⟩)
    · exact ⟨t, [], k, hts, htext, (ofArguments_bare_eq_ok_iff hk).mpr ⟨rfl, rfl⟩⟩
    · exact ⟨t, [u], k, hts, htext, (ofArguments_counted_eq_ok_iff hk).mpr ⟨u, n, rfl, hr, rfl⟩⟩

theorem sentence_of_parse {line : String} {c : Command} (h : Command.parse line = .ok c) :
    Sentence line c := by
  rcases parse_eq_ok_iff.mp h with
    ⟨t, k, hts, htext, hk⟩ | ⟨t, u, k, argument, build, n, hts, htext, hk, hr, rfl⟩
  · obtain ⟨lead, trail, hl, ht, rfl⟩ := Words.exists_of_ofLine_single hts
    exact .lone (gap_iff_blank.mp hl) (lone_iff.mpr ⟨k, htext, hk⟩) (gap_iff_blank.mp ht)
  · obtain ⟨lead, gap, trail, hl, hg, hne, ht, rfl⟩ := Words.exists_of_ofLine_pair hts
    obtain ⟨hrun, hle, rfl⟩ := Positional.read_eq_value_iff.mp hr
    exact .counting (gap_iff_blank.mp hl) (counting_iff.mpr ⟨k, argument, htext, hk⟩)
      (gap_iff_blank.mp hg) (fun he => hne (String.toList_eq_nil_iff.mpr he)) hrun hle
      (gap_iff_blank.mp ht)

theorem parse_of_sentence {line : String} {c : Command} (h : Sentence line c) :
    Command.parse line = .ok c := by
  cases h with
  | @lone lead word trail _ hl hw ht =>
    obtain ⟨k, rfl, hk⟩ := lone_iff.mp hw
    have hts := Words.ofLine_single (gap_iff_blank.mpr hl) (word_of_keyword k)
      (gap_iff_blank.mpr ht)
    exact parse_eq_ok_iff.mpr (.inl ⟨_, k, hts, rfl, hk⟩)
  | @counting lead word gap number trail build hl hw hg hne hr hn ht =>
    obtain ⟨k, argument, rfl, hk⟩ := counting_iff.mp hw
    have hts := Words.ofLine_pair (gap_iff_blank.mpr hl) (word_of_keyword k)
      (gap_iff_blank.mpr hg) (fun he => hne (String.toList_eq_nil_iff.mp he)) (word_of_run hr)
      (gap_iff_blank.mpr ht)
    exact parse_eq_ok_iff.mpr
      (.inr ⟨_, _, k, argument, build, _, hts, rfl, hk,
        Positional.read_eq_value_iff.mpr ⟨hr, hn, rfl⟩, rfl⟩)

/-- The reader accepts exactly the sentences, and gives each its meaning. -/
theorem parse_eq_ok_iff_sentence (line : String) (c : Command) :
    Command.parse line = .ok c ↔ Sentence line c :=
  ⟨sentence_of_parse, parse_of_sentence⟩

end DeviceShell.Proofs.Grammar
