import DeviceShell.Proofs.Positional
import Mathlib.Data.List.Basic

/-!
# How large a numeral is

What a run of digits is worth is decided by its digits without the zeros in front, the leading ones:
so many of them put the value into one decade (`placeValue_lt_pow`, `pow_le_placeValue`), and the
64-bit limit lies in the decade of twenty. A run with fewer is in range and one with more is beyond
it, whatever the digits are; only twenty have to be compared. Digits are also determined by their
number and their value, so the runs that are read as a number are its shortest numeral with zeros in
front of it, and no others.
-/
namespace DeviceShell.Proofs.Magnitude

open Positional (Run digits placeValue placeValue_write)

/-- So many zeros. -/
def zeros (k : Nat) : String := String.ofList (List.replicate k '0')

/-- The digits from the first one on that is not zero. -/
def leading (cs : List Char) : List Char := cs.dropWhile (· = '0')

theorem idxOf_le_nine {c : Char} (h : c ∈ digits) : digits.idxOf c ≤ 9 :=
  Nat.le_of_lt_succ (List.idxOf_lt_length_of_mem h)

theorem idxOf_pos {c : Char} (h : c ≠ '0') : 0 < digits.idxOf c := by
  rw [digits, List.idxOf_cons_ne _ (Ne.symm h)]
  exact Nat.succ_pos _

theorem placeValue_lt_pow {cs : List Char} (h : ∀ c ∈ cs, c ∈ digits) :
    placeValue cs < 10 ^ cs.length := by
  induction cs with
  | nil => exact Nat.one_pos
  | cons c cs ih =>
    obtain ⟨hc, hcs⟩ := List.forall_mem_cons.mp h
    have hdigit : digits.idxOf c * 10 ^ cs.length ≤ 9 * 10 ^ cs.length :=
      Nat.mul_le_mul_right _ (idxOf_le_nine hc)
    have hrest := ih hcs
    rw [placeValue, List.length_cons, Nat.pow_succ]
    omega

theorem pow_le_placeValue {c : Char} (h : c ≠ '0') (cs : List Char) :
    10 ^ cs.length ≤ placeValue (c :: cs) :=
  calc
    10 ^ cs.length ≤ digits.idxOf c * 10 ^ cs.length := Nat.le_mul_of_pos_left _ (idxOf_pos h)
    _ ≤ placeValue (c :: cs) := Nat.le_add_right _ _

/-- The first digit is the quotient by the weight of its place. -/
theorem placeValue_div {c : Char} {cs : List Char} (h : ∀ d ∈ cs, d ∈ digits) :
    placeValue (c :: cs) / 10 ^ cs.length = digits.idxOf c := by
  have hrest := placeValue_lt_pow h
  rw [placeValue, Nat.mul_comm, Nat.mul_add_div (Nat.zero_lt_of_lt hrest), Nat.div_eq_of_lt hrest,
    Nat.add_zero]

/-- Equally many digits of equal value are equal. -/
theorem eq_of_placeValue_eq {cs ds : List Char} (hcs : ∀ c ∈ cs, c ∈ digits)
    (hds : ∀ d ∈ ds, d ∈ digits) (hlength : ds.length = cs.length)
    (hvalue : placeValue cs = placeValue ds) : cs = ds := by
  induction cs generalizing ds with
  | nil => exact (List.length_eq_zero_iff.mp hlength).symm
  | cons c cs ih =>
    obtain ⟨d, ds, rfl⟩ := List.exists_cons_of_length_eq_add_one hlength
    obtain ⟨hc, hcs'⟩ := List.forall_mem_cons.mp hcs
    have hds' := (List.forall_mem_cons.mp hds).2
    have hrest : ds.length = cs.length := Nat.succ.inj hlength
    have hfirst : digits.idxOf c = digits.idxOf d := by
      rw [← placeValue_div hcs', ← placeValue_div hds', hvalue, hrest]
    obtain rfl := (List.idxOf_inj hc).mp hfirst
    rw [placeValue, placeValue, hrest] at hvalue
    rw [ih hcs' hds' hrest (Nat.add_left_cancel hvalue)]

theorem placeValue_zeros_append (k : Nat) (cs : List Char) :
    placeValue (List.replicate k '0' ++ cs) = placeValue cs := by
  induction k with
  | zero => rfl
  | succ k ih =>
    have hzero : digits.idxOf '0' = 0 := rfl
    rw [List.replicate_succ, List.cons_append, placeValue, hzero, Nat.zero_mul, Nat.zero_add, ih]

theorem run_zeros_append {cs : List Char} (h : Run cs) (k : Nat) :
    Run (List.replicate k '0' ++ cs) := by
  refine ⟨List.append_ne_nil_of_right_ne_nil _ h.nonempty, fun c hc => ?_⟩
  rcases List.mem_append.mp hc with hzero | hdigit
  · rw [List.eq_of_mem_replicate hzero]
    exact List.mem_cons_self
  · exact h.mem_digits c hdigit

theorem toList_zeros_append (k : Nat) (s : String) :
    (zeros k ++ s).toList = List.replicate k '0' ++ s.toList := by
  rw [String.toList_append, zeros, String.toList_ofList]

theorem exists_zeros_append_leading (cs : List Char) :
    ∃ k, cs = List.replicate k '0' ++ leading cs := by
  induction cs with
  | nil => exact ⟨0, rfl⟩
  | cons c cs ih =>
    by_cases hc : c = '0'
    · obtain ⟨k, hk⟩ := ih
      refine ⟨k + 1, ?_⟩
      rw [leading, List.dropWhile_cons_of_pos (by simpa using hc), hc, List.replicate_succ,
        List.cons_append]
      exact congrArg ('0' :: ·) hk
    · refine ⟨0, ?_⟩
      rw [leading, List.dropWhile_cons_of_neg (by simpa using hc)]
      rfl

theorem ne_zero_of_leading {c : Char} {cs ds : List Char} (h : leading cs = c :: ds) :
    c ≠ '0' := by
  have hhead := List.head?_dropWhile_not (fun c => decide (c = '0')) cs
  rw [show cs.dropWhile _ = c :: ds from h] at hhead
  simpa using hhead

theorem mem_digits_of_mem_leading {cs : List Char} (h : ∀ c ∈ cs, c ∈ digits) :
    ∀ c ∈ leading cs, c ∈ digits := fun c hc => h c ((List.dropWhile_sublist _).mem hc)

theorem placeValue_leading (cs : List Char) : placeValue (leading cs) = placeValue cs := by
  obtain ⟨k, hk⟩ := exists_zeros_append_leading cs
  rw [← placeValue_zeros_append k, ← hk]

theorem placeValue_lt_of_leading {cs : List Char} {n : Nat} (h : ∀ c ∈ cs, c ∈ digits)
    (hn : (leading cs).length ≤ n) : placeValue cs < 10 ^ n := by
  have hdecade := placeValue_lt_pow (mem_digits_of_mem_leading h)
  rw [← placeValue_leading]
  exact Nat.lt_of_lt_of_le hdecade (Nat.pow_le_pow_right (by decide) hn)

theorem le_placeValue_of_leading {cs : List Char} {n : Nat} (hn : n < (leading cs).length) :
    10 ^ n ≤ placeValue cs := by
  rw [← placeValue_leading]
  cases hl : leading cs with
  | nil =>
    rw [hl] at hn
    exact absurd hn (Nat.not_lt_zero n)
  | cons c ds =>
    rw [hl, List.length_cons] at hn
    exact Nat.le_trans (Nat.pow_le_pow_right (by decide) (Nat.le_of_lt_succ hn))
      (pow_le_placeValue (ne_zero_of_leading hl) ds)

theorem length_toDigits_placeValue {c : Char} {cs : List Char} (hc : c ≠ '0')
    (h : ∀ d ∈ c :: cs, d ∈ digits) :
    (Nat.toDigits 10 (placeValue (c :: cs))).length = (c :: cs).length := by
  have hle : (Nat.toDigits 10 (placeValue (c :: cs))).length ≤ cs.length + 1 :=
    (Nat.length_toDigits_le_iff (by decide) (Nat.succ_pos _)).mpr (placeValue_lt_pow h)
  have hpos : 0 < (Nat.toDigits 10 (placeValue (c :: cs))).length := Nat.length_toDigits_pos
  have hlarge := pow_le_placeValue hc cs
  rw [List.length_cons]
  by_contra hne
  have hshort : (Nat.toDigits 10 (placeValue (c :: cs))).length ≤ cs.length := by omega
  have hsmall := (Nat.length_toDigits_le_iff (by decide) (Nat.lt_of_lt_of_le hpos hshort)).mp hshort
  omega

theorem eq_write_of_leading {c : Char} {cs ds : List Char} (h : ∀ d ∈ cs, d ∈ digits)
    (hl : leading cs = c :: ds) : leading cs = (Numeral.write (placeValue cs)).toList := by
  have hdigits := mem_digits_of_mem_leading h
  have hvalue := placeValue_leading cs
  refine eq_of_placeValue_eq hdigits (Positional.run_write _).mem_digits ?_ ?_
  · rw [hl] at hdigits hvalue ⊢
    rw [Numeral.write, String.toList_ofList, ← hvalue]
    exact length_toDigits_placeValue (ne_zero_of_leading hl) hdigits
  · rw [placeValue_write, hvalue]

/-- Every run is the shortest numeral of its value with zeros in front of it. -/
theorem exists_zeros_append_write {s : String} (h : Run s.toList) :
    ∃ k, s = zeros k ++ Numeral.write (placeValue s.toList) := by
  obtain ⟨k, hk⟩ := exists_zeros_append_leading s.toList
  cases hl : leading s.toList with
  | nil =>
    -- Nothing but zeros: the last of them is the numeral.
    have hvalue : placeValue s.toList = 0 := by
      rw [← placeValue_leading, hl]
      rfl
    rw [hl, List.append_nil] at hk
    obtain ⟨j, rfl⟩ : ∃ j, k = j + 1 := by
      apply Nat.exists_eq_succ_of_ne_zero
      rintro rfl
      exact h.nonempty hk
    refine ⟨j, ?_⟩
    rw [hvalue, ← String.toList_inj, toList_zeros_append, hk, List.replicate_succ']
    rfl
  | cons c ds =>
    refine ⟨k, ?_⟩
    rw [← String.toList_inj, toList_zeros_append, ← eq_write_of_leading h.mem_digits hl]
    exact hk

theorem run_iff {s : String} : Run s.toList ↔ ¬ (s = "" ∨ ∃ c ∈ s.toList, c ∉ digits) := by
  have hempty : s = "" ↔ s.toList = [] := String.toList_eq_nil_iff.symm
  constructor
  · rintro h (hs | ⟨c, hc, hn⟩)
    · exact h.nonempty (hempty.mp hs)
    · exact hn (h.mem_digits c hc)
  · intro h
    refine ⟨fun hs => h (.inl (hempty.mpr hs)), fun c hc => ?_⟩
    by_contra hn
    exact h (.inr ⟨c, hc, hn⟩)

theorem read_of_run {s : String} (h : Run s.toList) :
    Numeral.read s = if placeValue s.toList ≤ 2 ^ 64 - 1 then .value (placeValue s.toList)
      else .overflow := by
  split
  case isTrue hle => exact Positional.read_eq_value_iff.mpr ⟨h, hle, rfl⟩
  case isFalse hgt => exact Positional.read_eq_overflow_iff.mpr ⟨h, Nat.not_le.mp hgt⟩

theorem read_zeros_append {s : String} (h : Run s.toList) (k : Nat) :
    Numeral.read (zeros k ++ s) = Numeral.read s := by
  have hrun : Run (zeros k ++ s).toList := by
    rw [toList_zeros_append]
    exact run_zeros_append h k
  rw [read_of_run hrun, read_of_run h, toList_zeros_append, placeValue_zeros_append]

/-- The texts that are read as a number are its shortest numeral and those with zeros in front. -/
theorem read_eq_value_iff_write {s : String} {n : Nat} :
    Numeral.read s = .value n ↔ n ≤ 2 ^ 64 - 1 ∧ ∃ k, s = zeros k ++ Numeral.write n := by
  constructor
  · intro h
    obtain ⟨hrun, hle, rfl⟩ := Positional.read_eq_value_iff.mp h
    exact ⟨hle, exists_zeros_append_write hrun⟩
  · rintro ⟨hle, k, rfl⟩
    rw [read_zeros_append (Positional.run_write n)]
    exact Positional.read_eq_value_iff.mpr ⟨Positional.run_write n, by rwa [placeValue_write],
      (placeValue_write n).symm⟩

/-- A text is read as the number that its digits are by place, if that is at most 2⁶⁴ − 1. Zeros in
front change nothing, and without them more than twenty digits are too many and fewer are always in
range. What is read as a number is its numeral, with zeros in front or without. -/
theorem read_exact (s : String) :
    (Numeral.read s = .invalid ↔ s = "" ∨ ∃ c ∈ s.toList, c ∉ digits) ∧
    (Run s.toList →
      (Numeral.read s = if placeValue s.toList ≤ 2 ^ 64 - 1 then .value (placeValue s.toList)
        else .overflow) ∧
      (∀ k, Numeral.read (zeros k ++ s) = Numeral.read s) ∧
      (20 < (leading s.toList).length → Numeral.read s = .overflow) ∧
      ((leading s.toList).length < 20 → Numeral.read s = .value (placeValue s.toList))) ∧
    (∀ n, Numeral.read s = .value n ↔ n ≤ 2 ^ 64 - 1 ∧ ∃ k, s = zeros k ++ Numeral.write n) ∧
    ∀ n, n ≤ 2 ^ 64 - 1 → Numeral.read (Numeral.write n) = .value n := by
  refine ⟨?_, fun h => ⟨read_of_run h, read_zeros_append h, fun hlong => ?_, fun hshort => ?_⟩,
    fun n => read_eq_value_iff_write, fun n hn => ?_⟩
  · rw [Positional.read_eq_invalid_iff, run_iff, Classical.not_not]
  · have hvalue := le_placeValue_of_leading hlong
    exact Positional.read_eq_overflow_iff.mpr ⟨h, by omega⟩
  · have hvalue := placeValue_lt_of_leading h.mem_digits (Nat.le_of_lt_succ hshort)
    exact Positional.read_eq_value_iff.mpr ⟨h, by omega, rfl⟩
  · exact read_eq_value_iff_write.mpr ⟨hn, 0, rfl⟩

/-- Zeros in front of the first number out of range, of the least one of twenty-one digits and of
the greatest one of nineteen; then the greatest number in range. -/
theorem read_exact_at_limit :
    (Run "0018446744073709551616".toList ∧ Numeral.read "0018446744073709551616" = .overflow ∧
      Numeral.read (zeros 3 ++ "0018446744073709551616") = .overflow) ∧
    (Run "00100000000000000000000".toList ∧ 20 < (leading "00100000000000000000000".toList).length ∧
      Numeral.read "00100000000000000000000" = .overflow) ∧
    (Run "009999999999999999999".toList ∧ (leading "009999999999999999999".toList).length < 20 ∧
      Numeral.read "009999999999999999999" = .value 9999999999999999999) ∧
    ((18446744073709551615 : Nat) ≤ 2 ^ 64 - 1 ∧
      Numeral.read (Numeral.write 18446744073709551615) = .value 18446744073709551615) := by
  have hbeyond : Run "0018446744073709551616".toList := Positional.isDigitRun_iff.mp rfl
  have hlong : Run "00100000000000000000000".toList := Positional.isDigitRun_iff.mp rfl
  have hshort : Run "009999999999999999999".toList := Positional.isDigitRun_iff.mp rfl
  have hread : Numeral.read "0018446744073709551616" = .overflow :=
    ((read_exact _).2.1 hbeyond).1.trans (if_neg (by decide))
  refine ⟨⟨hbeyond, hread, ?_⟩, ⟨hlong, by decide, ?_⟩, ⟨hshort, by decide, ?_⟩, by decide, ?_⟩
  · rw [((read_exact _).2.1 hbeyond).2.1 3, hread]
  · exact ((read_exact _).2.1 hlong).2.2.1 (by decide)
  · exact ((read_exact _).2.1 hshort).2.2.2 (by decide)
  · exact (read_exact "").2.2.2 _ (by decide)

end DeviceShell.Proofs.Magnitude
