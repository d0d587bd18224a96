import DeviceShell.Numeral
import DeviceShell.Text.Ends
import Mathlib.Algebra.Group.Int.Defs
import Mathlib.Algebra.Group.Nat.Defs

/-!
# Numerals by place

The digits are listed, a digit counts as much as digits stand before it in the list, and each place
weighs ten times the one behind it. `value_eq_placeValue` ties this reading to the running total
that a numeral is read with, for runs of any length and with any number of leading zeros.
-/
namespace DeviceShell.Proofs.Positional

/-- The ten digits in order. -/
def digits : List Char := ['0', '1', '2', '3', '4', '5', '6', '7', '8', '9']

/-- A run of digits, at least one. -/
structure Run (cs : List Char) : Prop where
  nonempty : cs ≠ []
  mem_digits : ∀ c ∈ cs, c ∈ digits

/-- The value of a run of digits: each digit by its place. -/
def placeValue : List Char → Nat
  | [] => 0
  | c :: cs => digits.idxOf c * 10 ^ cs.length + placeValue cs

theorem isDigit_of_mem_digits {c : Char} (h : c ∈ digits) : c.isDigit = true := by
  have hall : digits.all Char.isDigit = true := by decide
  exact List.all_eq_true.mp hall c h

theorem mem_digits_of_isDigit {c : Char} (h : c.isDigit = true) : c ∈ digits := by
  have hrange : 48 ≤ c.toNat ∧ c.toNat ≤ 57 := by
    simpa [Char.isDigit, UInt32.le_iff_toNat_le] using h
  have hall : ∀ n : Nat, n < 10 → Char.ofNat (48 + n) ∈ digits := by decide
  have hc := hall (c.toNat - 48) (by omega)
  rwa [Nat.add_sub_cancel' hrange.1, Char.ofNat_toNat] at hc

theorem idxOf_digits {c : Char} (h : c ∈ digits) : digits.idxOf c = c.toNat - '0'.toNat := by
  have hall : (digits.all fun d => digits.idxOf d = d.toNat - '0'.toNat) = true := by decide
  exact of_decide_eq_true (List.all_eq_true.mp hall c h)

theorem isDigitRun_iff {s : String} : Numeral.isDigitRun s = true ↔ Run s.toList := by
  have hne : (!s.toList.isEmpty) = true ↔ s.toList ≠ [] := by
    rw [Bool.not_eq_true', List.isEmpty_eq_false_iff]
  rw [Numeral.isDigitRun, Bool.and_eq_true, hne, List.all_eq_true]
  constructor
  · rintro ⟨h, hd⟩
    exact ⟨h, fun c hc => mem_digits_of_isDigit (hd c hc)⟩
  · rintro ⟨h, hd⟩
    exact ⟨h, fun c hc => isDigit_of_mem_digits (hd c hc)⟩

/-- The running total of a run of digits is its value by place. -/
theorem ofDigitChars_eq_placeValue {cs : List Char} (h : ∀ c ∈ cs, c ∈ digits) :
    Nat.ofDigitChars 10 cs 0 = placeValue cs := by
  induction cs with
  | nil => rfl
  | cons c cs ih =>
    obtain ⟨hc, hcs⟩ := List.forall_mem_cons.mp h
    rw [Nat.ofDigitChars_cons, Nat.ofDigitChars_eq_ofDigitChars_zero, ih hcs, placeValue,
      idxOf_digits hc, Nat.mul_zero, Nat.zero_add, Nat.mul_comm]

theorem value_eq_placeValue {s : String} (h : Run s.toList) :
    Numeral.value s = placeValue s.toList := ofDigitChars_eq_placeValue h.mem_digits

theorem limit_eq : Numeral.limit = 2 ^ 64 - 1 := by decide

theorem read_eq_value_iff {s : String} {n : Nat} :
    Numeral.read s = .value n ↔
      Run s.toList ∧ placeValue s.toList ≤ 2 ^ 64 - 1 ∧ n = placeValue s.toList := by
  rw [Numeral.read, limit_eq]
  by_cases hd : Numeral.isDigitRun s = true
  · have hr := isDigitRun_iff.mp hd
    rw [if_pos hd, value_eq_placeValue hr]
    by_cases hle : placeValue s.toList ≤ 2 ^ 64 - 1
    · rw [if_pos hle, Numeral.Reading.value.injEq]
      exact ⟨fun h => ⟨hr, hle, h.symm⟩, fun h => h.2.2.symm⟩
    · rw [if_neg hle]
      exact ⟨fun h => Numeral.Reading.noConfusion h, fun h => absurd h.2.1 hle⟩
  · rw [if_neg hd]
    exact ⟨fun h => Numeral.Reading.noConfusion h, fun h => absurd (isDigitRun_iff.mpr h.1) hd⟩

theorem read_eq_invalid_iff {s : String} : Numeral.read s = .invalid ↔ ¬ Run s.toList := by
  rw [← isDigitRun_iff, Numeral.read]
  by_cases hd : Numeral.isDigitRun s = true
  · rw [if_pos hd]
    refine ⟨fun h => ?_, fun h => absurd hd h⟩
    split at h <;> cases h
  · rw [if_neg hd]
    exact ⟨fun _ => hd, fun _ => rfl⟩

theorem read_eq_overflow_iff {s : String} :
    Numeral.read s = .overflow ↔ Run s.toList ∧ 2 ^ 64 - 1 < placeValue s.toList := by
  rw [Numeral.read, limit_eq]
  by_cases hd : Numeral.isDigitRun s = true
  · have hr := isDigitRun_iff.mp hd
    rw [if_pos hd, value_eq_placeValue hr]
    by_cases hle : placeValue s.toList ≤ 2 ^ 64 - 1
    · rw [if_pos hle]
      exact ⟨fun h => Numeral.Reading.noConfusion h, fun h => absurd hle (Nat.not_le.mpr h.2)⟩
    · rw [if_neg hle]
      exact ⟨fun _ => ⟨hr, Nat.not_le.mp hle⟩, fun _ => rfl⟩
  · rw [if_neg hd]
    exact ⟨fun h => Numeral.Reading.noConfusion h, fun h => absurd (isDigitRun_iff.mpr h.1) hd⟩

theorem read_write_of_gt {n : Nat} (h : Numeral.limit < n) :
    Numeral.read (Numeral.write n) = .overflow := by
  rw [Numeral.read, if_pos (Numeral.isDigitRun_write n), Numeral.value_write,
    if_neg (Nat.not_le.mpr h)]

/-- A minus sign is no digit. -/
theorem read_writeInt_of_neg {n : Int} (h : n < 0) :
    Numeral.read (Numeral.writeInt n) = .invalid := by
  cases n with
  | ofNat m => exact absurd h (Int.not_lt.mpr (Int.natCast_nonneg m))
  | negSucc m =>
    have hd : Numeral.isDigitRun (Numeral.writeInt (.negSucc m)) = false := by
      rw [Numeral.isDigitRun, Numeral.writeInt, String.toList_append]
      rfl
    rw [Numeral.read, hd]
    rfl

theorem writeInt_natCast (n : Nat) : Numeral.writeInt (n : Int) = Numeral.write n := rfl

theorem isBlank_of_mem_digits {c : Char} (h : c ∈ digits) : Text.isBlank c = false := by
  have hall : (digits.all fun d => !Text.isBlank d) = true := by decide
  have hc := List.all_eq_true.mp hall c h
  rwa [Bool.not_eq_true'] at hc

theorem run_write (n : Nat) : Run (Numeral.write n).toList :=
  isDigitRun_iff.mp (Numeral.isDigitRun_write n)

theorem placeValue_write (n : Nat) : placeValue (Numeral.write n).toList = n := by
  rw [← value_eq_placeValue (run_write n), Numeral.value_write]

end DeviceShell.Proofs.Positional
