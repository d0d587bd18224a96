/-!
# Sixteen-bit units

Offsets into a line count UTF-16 code units: a character beyond the basic plane takes two. The
same units are what the escapes of a JSON text spell, where one half of a pair may stand without
the other; such a half reads as the replacement character.
-/
namespace DeviceShell.Text

/-- What stands for anything that is no character. -/
def replacement : Char := '\uFFFD'

def unitWidth (c : Char) : Nat := if c.toNat < 0x10000 then 1 else 2

/-- Units of a character list. -/
def unitCount : List Char → Nat
  | [] => 0
  | c :: cs => unitWidth c + unitCount cs

/-- Length of a text in units. -/
def unitLength (s : String) : Nat := unitCount s.toList

theorem unitWidth_pos (c : Char) : 0 < unitWidth c := by
  unfold unitWidth
  split <;> decide

@[simp] theorem unitCount_nil : unitCount [] = 0 := rfl

@[simp] theorem unitCount_cons (c : Char) (cs : List Char) :
    unitCount (c :: cs) = unitWidth c + unitCount cs := rfl

@[simp] theorem unitCount_append (cs ds : List Char) :
    unitCount (cs ++ ds) = unitCount cs + unitCount ds := by
  induction cs with
  | nil => simp
  | cons c cs ih => simp only [List.cons_append, unitCount_cons, ih, Nat.add_assoc]

/-- The units of one character, a pair beyond the basic plane. -/
def unitsOf (c : Char) : List Nat :=
  if c.toNat < 0x10000 then [c.toNat]
  else
    let n := c.toNat - 0x10000
    [0xD800 + n / 0x400, 0xDC00 + n % 0x400]

def isHighHalf (u : Nat) : Bool := 0xD800 ≤ u && u < 0xDC00

def isLowHalf (u : Nat) : Bool := 0xDC00 ≤ u && u < 0xE000

/-- Reads units back as characters. -/
def ofUnits : List Nat → List Char
  | [] => []
  | u :: us =>
    if isHighHalf u then
      match us with
      | v :: vs =>
        if isLowHalf v then
          Char.ofNat (0x10000 + (u - 0xD800) * 0x400 + (v - 0xDC00)) :: ofUnits vs
        else replacement :: ofUnits (v :: vs)
      | [] => [replacement]
    else if isLowHalf u then replacement :: ofUnits us
    else Char.ofNat u :: ofUnits us

theorem length_unitsOf (c : Char) : (unitsOf c).length = unitWidth c := by
  unfold unitsOf unitWidth
  split <;> rfl

theorem length_flatMap_unitsOf (cs : List Char) : (cs.flatMap unitsOf).length = unitCount cs := by
  induction cs with
  | nil => rfl
  | cons c cs ih => rw [List.flatMap_cons, List.length_append, length_unitsOf, ih, unitCount_cons]

theorem toNat_valid (c : Char) : c.toNat < 0xD800 ∨ 0xDFFF < c.toNat ∧ c.toNat < 0x110000 :=
  c.valid

/-- The units of a character are read back as that character. -/
theorem ofUnits_unitsOf_append (c : Char) (us : List Nat) :
    ofUnits (unitsOf c ++ us) = c :: ofUnits us := by
  have hvalid := toNat_valid c
  rw [unitsOf]
  by_cases hbasic : c.toNat < 0x10000
  · have hhigh : isHighHalf c.toNat = false := by
      simp only [isHighHalf, Bool.and_eq_false_iff, decide_eq_false_iff_not]
      omega
    have hlow : isLowHalf c.toNat = false := by
      simp only [isLowHalf, Bool.and_eq_false_iff, decide_eq_false_iff_not]
      omega
    rw [if_pos hbasic, List.singleton_append, ofUnits.eq_def]
    simp only [hhigh, hlow, Bool.false_eq_true, ↓reduceIte, Char.ofNat_toNat]
  · have hhigh : isHighHalf (0xD800 + (c.toNat - 0x10000) / 0x400) = true := by
      simp only [isHighHalf, Bool.and_eq_true, decide_eq_true_eq]
      omega
    have hlow : isLowHalf (0xDC00 + (c.toNat - 0x10000) % 0x400) = true := by
      simp only [isLowHalf, Bool.and_eq_true, decide_eq_true_eq]
      omega
    have hback : 0x10000 + (0xD800 + (c.toNat - 0x10000) / 0x400 - 0xD800) * 0x400 +
        (0xDC00 + (c.toNat - 0x10000) % 0x400 - 0xDC00) = c.toNat := by omega
    rw [if_neg hbasic]
    simp only [List.cons_append, List.nil_append]
    rw [ofUnits]
    simp only [hhigh, hlow, ↓reduceIte, hback, Char.ofNat_toNat]

theorem ofUnits_flatMap (cs : List Char) : ofUnits (cs.flatMap unitsOf) = cs := by
  induction cs with
  | nil => rfl
  | cons c cs ih => rw [List.flatMap_cons, ofUnits_unitsOf_append, ih]

end DeviceShell.Text
