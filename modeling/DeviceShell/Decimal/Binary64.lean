/-!
# Decimal numbers and the nearest double

A number of a document is kept as it is written: a sign, the digits as one natural number, and the
power of ten that they are scaled by. Two records may denote one value.

Its value is kept in double precision, so a written decimal stands for the multiple of a power of
two that is nearest to it. Everything is exact arithmetic on natural numbers: of the two
neighbours the nearer one is taken, of two equally near ones the even one, and a magnitude that
would need an exponent above the largest is infinite.
-/
namespace DeviceShell

/-- The number `± mantissa · 10 ^ exponent`. -/
structure Decimal where
  negative : Bool
  mantissa : Nat
  exponent : Int
  deriving DecidableEq, Repr

namespace Decimal

def ofInt (n : Int) : Decimal := ⟨n < 0, n.natAbs, 0⟩

/-- The magnitude as a quotient of natural numbers. -/
def quotient (d : Decimal) : Nat × Nat :=
  if 0 ≤ d.exponent then (d.mantissa * Nat.pow 10 d.exponent.toNat, 1)
  else (d.mantissa, Nat.pow 10 (-d.exponent).toNat)

end Decimal

namespace Binary64

/-- A magnitude in double precision: `mantissa · 2 ^ exponent`, or beyond the largest of those. -/
inductive Magnitude where
  | finite (mantissa : Nat) (exponent : Int)
  | infinite
  deriving DecidableEq, Repr

/-- The mantissas of doubles lie below 2⁵³. -/
def mantissaLimit : Nat := 0x20000000000000

/-- The least mantissa of a double that is not subnormal, 2⁵². -/
def leastNormal : Nat := 0x10000000000000

/-- Exponent of the smallest positive double. -/
def leastExponent : Int := -1074

/-- Exponent of the largest finite double. -/
def greatestExponent : Int := 971

/-- Nearest natural number to a quotient, halves to the even neighbour. -/
def roundHalfEven (num den : Nat) : Nat :=
  let q := num / den
  let r := num % den
  if 2 * r < den then q
  else if den < 2 * r then q + 1
  else q + q % 2

/-- The quotient `num / den` divided by `2 ^ e`, as a quotient. -/
def scaled (num den : Nat) (e : Int) : Nat × Nat :=
  if 0 ≤ e then (num, den * Nat.pow 2 e.toNat) else (num * Nat.pow 2 (-e).toNat, den)

/-- Exponent at which the quotient has fifty-three binary digits, or the least one. -/
def exponentOf (num den : Nat) : Int :=
  let estimate := max ((num.log2 : Int) - den.log2 - 53) leastExponent
  let (n, d) := scaled num den estimate
  if n / d < mantissaLimit then estimate else estimate + 1

def ofQuotient (num den : Nat) : Magnitude :=
  let e := exponentOf num den
  let (n, d) := scaled num den e
  let m := roundHalfEven n d
  let (m, e) := if m = mantissaLimit then (leastNormal, e + 1) else (m, e)
  if greatestExponent < e then .infinite else .finite m e

/-- No double has a decimal point farther than this from its first digit; a written number whose
point is farther is zero or infinite. -/
def farthestPoint : Int := 400

/-- The double nearest to a written magnitude. -/
def nearest (d : Decimal) : Magnitude :=
  if d.mantissa = 0 then .finite 0 leastExponent
  else
    let point := (Nat.toDigits 10 d.mantissa).length + d.exponent
    if farthestPoint < point then .infinite
    else if point < -farthestPoint then .finite 0 leastExponent
    else
      let (num, den) := d.quotient
      ofQuotient num den

end Binary64

end DeviceShell
