import DeviceShell.Json.Mark
import DeviceShell.Json.Printer
import DeviceShell.Proofs.Positional
import Mathlib.Data.List.TakeWhile

/-!
# Written texts and their marks

`Scans text marks` says that a text stands for exactly these marks wherever it stands, provided that
what follows does not continue its last word. Blanks stand for no mark, a bracket or a separator for
itself, a quoted text for the text, and the numeral of a small integer for that integer. Texts next
to each other stand for their marks next to each other, so larger texts need no look at single
characters.
-/
namespace DeviceShell.Proofs.JsonMarks

open Json (Mark)
open Json.Mark (Scan isSpace isWordChar)

/-- The marks of a text that stands behind the given ones, latest first. -/
def scan (before : List Mark) (cs : List Char) : Option (List Mark) :=
  (cs.foldlM Mark.step ⟨.between, before⟩).bind Mark.finish

/-- What may stand behind a word. -/
def Breaks : List Char → Prop
  | [] => True
  | c :: _ => isWordChar c = false

/-- A text stands for these marks, whatever follows it. -/
def Sealed (text : List Char) (marks : List Mark) : Prop :=
  ∀ before rest, scan before (text ++ rest) = scan (marks.reverse ++ before) rest

/-- A text stands for these marks where nothing continues its last word. -/
def Scans (text : List Char) (marks : List Mark) : Prop :=
  ∀ before rest, Breaks rest → scan before (text ++ rest) = scan (marks.reverse ++ before) rest

theorem Sealed.scans {text : List Char} {marks : List Mark} (h : Sealed text marks) :
    Scans text marks := fun before rest _ => h before rest

theorem Sealed.append_scans {a b : List Char} {ms ns : List Mark} (ha : Sealed a ms)
    (hb : Scans b ns) : Scans (a ++ b) (ms ++ ns) := by
  intro before rest hr
  rw [List.append_assoc, ha, hb _ rest hr, List.reverse_append, List.append_assoc]

theorem Sealed.append {a b : List Char} {ms ns : List Mark} (ha : Sealed a ms)
    (hb : Sealed b ns) : Sealed (a ++ b) (ms ++ ns) := by
  intro before rest
  rw [List.append_assoc, ha, hb, List.reverse_append, List.append_assoc]

/-- A last word is ended by what does not continue it. -/
theorem Scans.append {a b : List Char} {ms ns : List Mark} (ha : Scans a ms) (hb : Sealed b ns)
    (hbreak : ∀ rest, Breaks (b ++ rest)) : Sealed (a ++ b) (ms ++ ns) := by
  intro before rest
  rw [List.append_assoc, ha before _ (hbreak rest), hb, List.reverse_append, List.append_assoc]

/-- One character that stands for a mark by itself. -/
theorem sealed_cut {c : Char} {m : Mark}
    (h : ∀ before, Mark.cut before c = some ⟨.between, m :: before⟩) : Sealed [c] [m] := by
  intro before rest
  rw [scan, List.singleton_append, List.foldlM_cons, Mark.step, h]
  rfl

theorem sealed_space {cs : List Char} (h : cs.all isSpace = true) : Sealed cs [] := by
  induction cs with
  | nil => exact fun _ _ => rfl
  | cons c cs ih =>
    rw [List.all_cons, Bool.and_eq_true] at h
    obtain ⟨hc, hcs⟩ := h
    intro before rest
    have hcut : Mark.cut before c = some ⟨.between, before⟩ := by
      simp only [isSpace, Bool.or_eq_true, beq_iff_eq] at hc
      rcases hc with ((rfl | rfl) | rfl) | rfl <;> rfl
    have hstep : scan before (c :: (cs ++ rest)) = scan before (cs ++ rest) := by
      rw [scan, List.foldlM_cons, Mark.step, hcut]
      rfl
    rw [List.cons_append, hstep, ih hcs before rest]

theorem not_breaks_of_isSpace {c : Char} (h : isSpace c = true) : isWordChar c = false := by
  simp only [isSpace, Bool.or_eq_true, beq_iff_eq] at h
  rcases h with ((rfl | rfl) | rfl) | rfl <;> rfl

theorem cut_wordChar {c : Char} (h : isWordChar c = true) (before : List Mark) :
    Mark.cut before c = some ⟨.word [c], before⟩ := by
  have hne : ∀ d, isWordChar d = false → c ≠ d := by
    rintro d hd rfl
    rw [hd] at h
    cases h
  have hspace : isSpace c = false := by
    cases hs : isSpace c with
    | false => rfl
    | true => rw [not_breaks_of_isSpace hs] at h; cases h
  rw [Mark.cut, if_neg (hne '[' rfl), if_neg (hne ']' rfl), if_neg (hne '\x7b' rfl),
    if_neg (hne '\x7d' rfl), if_neg (hne ',' rfl), if_neg (hne ':' rfl), if_neg (hne '"' rfl),
    if_neg (Bool.eq_false_iff.mp hspace), if_pos h]

theorem foldlM_word {cs : List Char} (h : ∀ c ∈ cs, isWordChar c = true) (gathered : List Char)
    (before : List Mark) :
    cs.foldlM Mark.step ⟨.word gathered, before⟩ =
      some ⟨.word (cs.reverse ++ gathered), before⟩ := by
  induction cs generalizing gathered with
  | nil => rfl
  | cons c cs ih =>
    obtain ⟨hc, hcs⟩ := List.forall_mem_cons.mp h
    have hstep : Mark.step ⟨.word gathered, before⟩ c = some ⟨.word (c :: gathered), before⟩ := by
      rw [Mark.step]
      simp only [hc, ↓reduceIte]
    rw [List.foldlM_cons, hstep, List.reverse_cons, List.append_assoc, List.singleton_append]
    exact ih hcs (c :: gathered)

/-- A word that names a value stands for it. -/
theorem scans_scalar {word : List Char} {v : Json} (hne : word ≠ [])
    (hword : word.all isWordChar = true) (hv : Mark.scalar? word = some v) :
    Scans word [.scalar v] := by
  intro before rest hr
  obtain ⟨c, cs, rfl⟩ := List.exists_cons_of_ne_nil hne
  obtain ⟨hc, hcs⟩ := List.forall_mem_cons.mp (List.all_eq_true.mp hword)
  have hgathered : (cs.reverse ++ [c]).reverse = c :: cs := by simp
  have hfront : (c :: cs).foldlM Mark.step ⟨.between, before⟩ =
      some ⟨.word (cs.reverse ++ [c]), before⟩ := by
    rw [List.foldlM_cons, Mark.step, cut_wordChar hc]
    exact foldlM_word hcs [c] before
  rw [scan, List.foldlM_append, hfront]
  cases rest with
  | nil =>
    -- The end of the document ends the word.
    change Mark.finish ⟨.word (cs.reverse ++ [c]), before⟩ = _
    simp only [Mark.finish, hgathered, hv, Option.map_some]
    rfl
  | cons d rest =>
    have hd : isWordChar d = false := hr
    have hstep : Mark.step ⟨.word (cs.reverse ++ [c]), before⟩ d =
        Mark.cut (.scalar v :: before) d := by
      rw [Mark.step]
      simp only [hd, Bool.false_eq_true, ↓reduceIte, hgathered, hv, Option.bind_some]
    change ((d :: rest).foldlM Mark.step ⟨.word (cs.reverse ++ [c]), before⟩).bind Mark.finish = _
    rw [List.foldlM_cons, hstep, scan, List.foldlM_cons]
    rfl

theorem hexValue?_digitChar {d : Nat} (h : d < 16) :
    Mark.hexValue? (Nat.digitChar d) = some d := by
  have hall : ∀ d : Nat, d < 16 → Mark.hexValue? (Nat.digitChar d) = some d := by decide
  exact hall d h

/-- What a character becomes inside quotes is read back as its units. -/
theorem foldlM_escape (c : Char) (units : List Nat) (before : List Mark) :
    (Json.escape c).foldlM Mark.step ⟨.text units, before⟩ =
      some ⟨.text ((Text.unitsOf c).reverse ++ units), before⟩ := by
  rw [Json.escape]
  split
  · next h => subst h; rfl
  split
  · next h => subst h; rfl
  split
  · next h => subst h; rfl
  split
  · next h => subst h; rfl
  split
  · next h => subst h; rfl
  split
  · next h => subst h; rfl
  split
  · next h => subst h; rfl
  next hquote hslash _ _ _ _ _ =>
  split
  · next hcontrol =>
    have hhigh := hexValue?_digitChar (d := c.toNat / 16) (by omega)
    have hlow := hexValue?_digitChar (d := c.toNat % 16) (by omega)
    have hback : (((0 * 16 + 0) * 16 + 0) * 16 + c.toNat / 16) * 16 + c.toNat % 16 = c.toNat := by
      omega
    have hzero : Mark.hexValue? '0' = some 0 := rfl
    have hunits : Text.unitsOf c = [c.toNat] := by rw [Text.unitsOf, if_pos (by omega)]
    have hopen : Mark.step ⟨.text units, before⟩ '\\' = some ⟨.escape units, before⟩ := rfl
    have hcode : Mark.step ⟨.escape units, before⟩ 'u' = some ⟨.code units 4 0, before⟩ := rfl
    -- Four digits follow, each of which the scanner adds to the unit under way.
    rw [List.foldlM_cons, hopen, Option.bind_eq_bind, Option.bind_some, List.foldlM_cons, hcode,
      Option.bind_eq_bind, Option.bind_some, hunits]
    simp only [List.foldlM_cons, List.foldlM_nil, Mark.step, hzero, hhigh, hlow, Option.map_some,
      Option.bind_eq_bind, Option.bind_some, Option.pure_def, Nat.reduceLeDiff, ↓reduceIte,
      Nat.add_one_sub_one, hback, Nat.le_refl]
    rfl
  · next hcontrol =>
    rw [List.foldlM_cons, Mark.step]
    simp only [hquote, hslash, hcontrol, ↓reduceIte]
    rfl

theorem foldlM_escapes (cs : List Char) (units : List Nat) (before : List Mark) :
    (cs.flatMap Json.escape).foldlM Mark.step ⟨.text units, before⟩ =
      some ⟨.text ((cs.flatMap Text.unitsOf).reverse ++ units), before⟩ := by
  induction cs generalizing units with
  | nil => rfl
  | cons c cs ih =>
    rw [List.flatMap_cons, List.foldlM_append, foldlM_escape, Option.bind_eq_bind, Option.bind_some,
      ih, List.flatMap_cons, List.reverse_append, List.append_assoc]

/-- A quoted text stands for the text, whatever characters it holds. -/
theorem sealed_quote (s : String) : Sealed (Json.quote s).toList [.text s] := by
  intro before rest
  have hopen : Mark.step ⟨.between, before⟩ '"' = some ⟨.text [], before⟩ := rfl
  have hclose : Mark.step ⟨.text (s.toList.flatMap Text.unitsOf).reverse, before⟩ '"' =
      some ⟨.between, .text s :: before⟩ := by
    rw [Mark.step]
    simp only [↓reduceIte, List.reverse_reverse, Text.ofUnits_flatMap, String.ofList_toList]
  rw [Json.quote, String.toList_ofList, scan]
  simp only [List.cons_append, List.append_assoc, List.nil_append]
  rw [List.foldlM_cons, hopen, Option.bind_eq_bind, Option.bind_some, List.foldlM_append,
    foldlM_escapes, List.append_nil, Option.bind_eq_bind, Option.bind_some, List.foldlM_cons,
    hclose]
  rfl

/-- A numeral begins with a zero only if it is zero. -/
theorem exists_toDigits_cons (n : Nat) :
    ∃ d ds, Nat.toDigits 10 n = d :: ds ∧ (d = '0' → n = 0) := by
  induction n using Nat.strongRecOn with
  | ind n ih =>
    by_cases hn : n < 10
    · refine ⟨n.digitChar, [], Nat.toDigits_of_lt_base hn, fun hd => ?_⟩
      have hall : ∀ m : Nat, m < 10 → m.digitChar = '0' → m = 0 := by decide
      exact hall n hn hd
    · obtain ⟨d, ds, hds, hzero⟩ := ih (n / 10) (by omega)
      refine ⟨d, ds ++ [(n % 10).digitChar], ?_, fun hd => ?_⟩
      · rw [Nat.toDigits_of_base_le (by omega) (by omega), hds, List.cons_append]
      · have := hzero hd
        omega

theorem isWhole_toDigits (n : Nat) : Json.Number.isWhole (Nat.toDigits 10 n) = true := by
  obtain ⟨d, ds, hds, hzero⟩ := exists_toDigits_cons n
  by_cases hn : n = 0
  · subst hn
    rfl
  · have hd : d ≠ '0' := fun h => hn (hzero h)
    rw [hds, Json.Number.isWhole.eq_def]
    split
    · next h => cases h
    · next h => exact absurd (List.cons.inj h).1 hd
    · next h =>
      obtain ⟨rfl, -⟩ := List.cons.inj h
      exact bne_iff_ne.mpr hd

theorem isDigit_of_mem_toDigits {n : Nat} {c : Char} (h : c ∈ Nat.toDigits 10 n) :
    c.isDigit = true := Nat.isDigit_of_mem_toDigits (by decide) (by decide) h

theorem digits_toDigits (n : Nat) :
    Json.Number.digits (Nat.toDigits 10 n) = (Nat.toDigits 10 n, []) := by
  have hall : ∀ c ∈ Nat.toDigits 10 n, c.isDigit = true := fun c hc => isDigit_of_mem_toDigits hc
  have htake : (Nat.toDigits 10 n).takeWhile Char.isDigit = Nat.toDigits 10 n :=
    List.takeWhile_eq_self_iff.mpr hall
  have hdrop : (Nat.toDigits 10 n).dropWhile Char.isDigit = [] :=
    List.dropWhile_eq_nil_iff.mpr hall
  rw [Json.Number.digits, htake, hdrop]

/-- The digits of a natural number are read back, behind a sign or without. -/
theorem read?_of_sign {cs : List Char} {negative : Bool} {n : Nat}
    (h : Json.Number.sign cs = (negative, Nat.toDigits 10 n)) :
    Json.Number.read? cs = some ⟨negative, n, 0⟩ := by
  have hvalue : Json.Number.natOf (Nat.toDigits 10 n) = n := by
    rw [Json.Number.natOf, Nat.ofDigitChars_toDigits (by decide) (by decide)]
  rw [Json.Number.read?]
  simp only [h, digits_toDigits, isWhole_toDigits, Bool.not_true, Bool.false_eq_true, ↓reduceIte,
    Json.Number.fraction?, Option.bind_eq_bind, Option.bind_some, Json.Number.exponent?,
    List.append_nil, hvalue, List.length_nil]
  rfl

theorem sign_toDigits (n : Nat) :
    Json.Number.sign (Nat.toDigits 10 n) = (false, Nat.toDigits 10 n) := by
  rw [Json.Number.sign.eq_def]
  split
  · next cs h =>
    have hd : '-'.isDigit = true :=
      isDigit_of_mem_toDigits (n := n) (h ▸ List.mem_cons_self)
    cases hd
  · rfl

theorem read?_writeInt (n : Int) :
    Json.Number.read? (Numeral.writeInt n).toList = some (.ofInt n) := by
  cases n with
  | ofNat m =>
    rw [Numeral.writeInt, Numeral.write, String.toList_ofList, read?_of_sign (sign_toDigits m)]
    simp [Decimal.ofInt]
  | negSucc m =>
    have hsign : Json.Number.sign (Numeral.writeInt (.negSucc m)).toList =
        (true, Nat.toDigits 10 (m + 1)) := by
      rw [Numeral.writeInt, Numeral.write, String.toList_append]
      change Json.Number.sign ('-' :: (String.ofList (Nat.toDigits 10 (m + 1))).toList) = _
      rw [String.toList_ofList, Json.Number.sign]
    rw [read?_of_sign hsign]
    simp [Decimal.ofInt, Int.negSucc_lt_zero]

theorem isWordChar_of_mem_writeInt {n : Int} {c : Char} (h : c ∈ (Numeral.writeInt n).toList) :
    isWordChar c = true := by
  have hdigits : ∀ {m : Nat}, c ∈ (Numeral.write m).toList → isWordChar c = true := by
    intro m hm
    rw [Numeral.write, String.toList_ofList] at hm
    simp [isWordChar, Char.isAlphanum, isDigit_of_mem_toDigits hm]
  cases n with
  | ofNat m => exact hdigits h
  | negSucc m =>
    rw [Numeral.writeInt, String.toList_append] at h
    rcases List.mem_append.mp h with hsign | hm
    · obtain rfl := List.mem_singleton.mp hsign
      rfl
    · exact hdigits hm

/-- The numeral of an integer is none of the words that name a value. -/
theorem scalar?_writeInt (n : Int) :
    Mark.scalar? (Numeral.writeInt n).toList = some (.num (.ofInt n)) := by
  have hne : ∀ word : List Char, Json.Number.read? word = none →
      (Numeral.writeInt n).toList ≠ word := by
    rintro word hw rfl
    rw [read?_writeInt] at hw
    cases hw
  rw [Mark.scalar?, if_neg (hne _ (by rfl)), if_neg (hne _ (by rfl)), if_neg (hne _ (by rfl)),
    read?_writeInt, Option.map_some]

/-- An integer that a double holds exactly is written as a numeral that stands for it. -/
theorem scans_number {n : Int} (h : n.natAbs < Binary64.mantissaLimit) :
    Scans (Json.numberText (.ofInt n)).toList [.scalar (.num (.ofInt n))] := by
  rw [Json.numberText, Decimal.finiteText?_ofInt h, Option.getD_some]
  have hword : (Numeral.writeInt n).toList.all isWordChar = true :=
    List.all_eq_true.mpr fun c hc => isWordChar_of_mem_writeInt hc
  refine scans_scalar ?_ hword (scalar?_writeInt n)
  intro hnil
  have hread := read?_writeInt n
  rw [hnil] at hread
  cases hread

theorem scans_bool (b : Bool) : Scans (Json.boolText b).toList [.scalar (.bool b)] := by
  cases b <;> exact scans_scalar (List.cons_ne_nil _ _) (by rfl) (by rfl)

theorem scans_null : Scans "null".toList [.scalar .null] :=
  scans_scalar (List.cons_ne_nil _ _) (by rfl) (by rfl)

end DeviceShell.Proofs.JsonMarks
