/-!
# Decimal numerals

An argument of a command is a run of ASCII digits: no sign, no separator, no other script. Its
value is positional, so leading zeros are free and the length of the run decides nothing; only
the value is held against the 64-bit limit.
-/
namespace DeviceShell.Numeral

/-- The largest argument, 2⁶⁴ − 1. -/
def limit : Nat := 18446744073709551615

def isDigitRun (s : String) : Bool := !s.toList.isEmpty && s.toList.all Char.isDigit

/-- Positional value of a run of digits. -/
def value (s : String) : Nat := Nat.ofDigitChars 10 s.toList 0

inductive Reading where
  | value (n : Nat)
  | overflow
  | invalid
  deriving DecidableEq, Repr

def read (s : String) : Reading :=
  if isDigitRun s then
    if value s ≤ limit then .value (value s) else .overflow
  else .invalid

/-- Shortest numeral of a natural number. -/
def write (n : Nat) : String := String.ofList (Nat.toDigits 10 n)

/-- Numeral of an integer, a minus sign in front of a negative one. -/
def writeInt : Int → String
  | .ofNat n => write n
  | .negSucc n => "-" ++ write (n + 1)

theorem isDigitRun_write (n : Nat) : isDigitRun (write n) = true := by
  have hd : ∀ c ∈ Nat.toDigits 10 n, c.isDigit = true := fun c hc =>
    Nat.isDigit_of_mem_toDigits (by decide) (by decide) hc
  have hn : Nat.toDigits 10 n ≠ [] := Nat.toDigits_ne_nil
  simpa [isDigitRun, write, hn] using hd

@[simp] theorem value_write (n : Nat) : value (write n) = n := by
  simp [value, write, Nat.ofDigitChars_toDigits]

/-- A numeral in range reads back. -/
theorem read_write {n : Nat} (h : n ≤ limit) : read (write n) = .value n := by
  simp [read, isDigitRun_write, h]

end DeviceShell.Numeral
