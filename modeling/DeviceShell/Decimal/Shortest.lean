import DeviceShell.Decimal.Binary64
import DeviceShell.Numeral

/-!
# The shortest text of a double

A double is written with the fewest significant digits that read back as that double; among those
the nearest to its value, and of two equally near ones the even. With `n` digits there are only two
candidates, the neighbours of the value on the decimal grid of that width, so the search tries one
width after another and stops at seventeen, where some neighbour always reads back.
-/
namespace DeviceShell.Shortest

/-- A positive quotient of natural numbers. -/
structure Ratio where
  num : Nat
  den : Nat

def Ratio.le (a b : Ratio) : Bool := a.num * b.den ≤ b.num * a.den

def Ratio.lt (a b : Ratio) : Bool := a.num * b.den < b.num * a.den

/-- The quotient `m · 2 ^ e`. -/
def Ratio.binary (m : Nat) (e : Int) : Ratio :=
  if 0 ≤ e then ⟨m * Nat.pow 2 e.toNat, 1⟩ else ⟨m, Nat.pow 2 (-e).toNat⟩

/-- The quotient `m · 10 ^ e`. -/
def Ratio.decimal (m : Nat) (e : Int) : Ratio :=
  if 0 ≤ e then ⟨m * Nat.pow 10 e.toNat, 1⟩ else ⟨m, Nat.pow 10 (-e).toNat⟩

/-- The reals that round to a double: the halfway points to its neighbours, which belong to it
exactly when its mantissa is even. The gap below a power of two is half as wide. -/
structure Interval where
  low : Ratio
  high : Ratio
  closed : Bool

def Interval.of (m : Nat) (e : Int) : Interval where
  low :=
    if m = Binary64.leastNormal ∧ Binary64.leastExponent < e then .binary (4 * m - 1) (e - 2)
    else .binary (2 * m - 1) (e - 1)
  high := .binary (2 * m + 1) (e - 1)
  closed := m % 2 == 0

def Interval.contains (i : Interval) (x : Ratio) : Bool :=
  if i.closed then i.low.le x && x.le i.high else i.low.lt x && x.lt i.high

/-- Position of the decimal point relative to the first digit: the `p` with
`10 ^ (p - 1) ≤ x < 10 ^ p`. The first guess from the digit counts is at most one too large. -/
def pointOf (x : Ratio) : Int :=
  let guess := ((Nat.toDigits 10 x.num).length : Int) - (Nat.toDigits 10 x.den).length + 1
  if (Ratio.decimal 1 (guess - 1)).le x then guess else guess - 1

/-- The whole number of grid steps `10 ^ k` below `x`. -/
def stepsBelow (x : Ratio) (k : Int) : Nat :=
  if 0 ≤ k then x.num / (x.den * Nat.pow 10 k.toNat) else x.num * Nat.pow 10 (-k).toNat / x.den

/-- The nearer of the grid points around `x`; halfway between them, the even one. -/
def nearestStep (x : Ratio) (k : Int) (below : Nat) : Nat :=
  let middle := if 0 ≤ k then Ratio.mk ((2 * below + 1) * Nat.pow 10 k.toNat) 2
    else Ratio.mk (2 * below + 1) (2 * Nat.pow 10 (-k).toNat)
  if x.lt middle then below
  else if middle.lt x then below + 1
  else below + below % 2

/-- Digits and their power of ten, for the first width from `width` on whose grid has a point in
the interval. -/
def search (i : Interval) (x : Ratio) (point : Int) : (fuel width : Nat) → Nat × Int
  | 0, width => (stepsBelow x (point - width), point - width)
  | fuel + 1, width =>
    let k := point - width
    let below := stepsBelow x k
    let hasBelow := i.contains (.decimal below k)
    let hasAbove := i.contains (.decimal (below + 1) k)
    if hasBelow && hasAbove then (nearestStep x k below, k)
    else if hasBelow then (below, k)
    else if hasAbove then (below + 1, k)
    else search i x point fuel (width + 1)

/-- Shortest decimal for a positive double. -/
def decimalOf (m : Nat) (e : Int) : Nat × Int :=
  let x := Ratio.binary m e
  search (.of m e) x (pointOf x) 17 1

/-- Drops the zeros at the end of a list of digits. -/
def dropZeros (ds : List Char) : List Char := (ds.reverse.dropWhile (· == '0')).reverse

/-- Positional from `10 ^ -6` up to below `10 ^ 21`, otherwise one digit before the point and a
signed exponent. -/
def layout (digits : List Char) (point : Int) : String :=
  let zeros (n : Int) := List.replicate n.toNat '0'
  if digits.length ≤ point ∧ point ≤ 21 then
    String.ofList (digits ++ zeros (point - digits.length))
  else if 0 < point ∧ point ≤ 21 then
    String.ofList (digits.take point.toNat ++ '.' :: digits.drop point.toNat)
  else if -6 < point ∧ point ≤ 0 then
    String.ofList ('0' :: '.' :: zeros (-point) ++ digits)
  else
    let fraction := if digits.length ≤ 1 then [] else '.' :: digits.drop 1
    let sign := if 0 < point then "e+" else "e-"
    String.ofList (digits.take 1 ++ fraction) ++ sign ++ Numeral.write (point - 1).natAbs

/-- Text of a positive double. -/
def write (m : Nat) (e : Int) : String :=
  let (n, k) := decimalOf m e
  let all := Nat.toDigits 10 n
  layout (dropZeros all) (all.length + k)

end DeviceShell.Shortest

namespace DeviceShell.Decimal

def sign (d : Decimal) : String := if d.negative then "-" else ""

/-- A whole number of at most fifty-three binary digits is a double itself. -/
def isSmallWhole (d : Decimal) : Bool := d.exponent == 0 && decide (d.mantissa < Binary64.mantissaLimit)

/-- Text of the double that a number stands for, or `none` when that is infinite. Zero has no
sign, and a small whole number is its own shortest text. -/
def finiteText? (d : Decimal) : Option String :=
  if d.mantissa = 0 then some "0"
  else if d.isSmallWhole then some (d.sign ++ Numeral.write d.mantissa)
  else match Binary64.nearest d with
    | .infinite => none
    | .finite 0 _ => some "0"
    | .finite m e => some (d.sign ++ Shortest.write m e)

def text (d : Decimal) : String := (finiteText? d).getD (d.sign ++ "Infinity")

/-- An integer of at most fifty-three binary digits is written as its numeral. -/
theorem finiteText?_ofInt {n : Int} (h : n.natAbs < Binary64.mantissaLimit) :
    finiteText? (ofInt n) = some (Numeral.writeInt n) := by
  have hs (negative : Bool) : isSmallWhole ⟨negative, n.natAbs, 0⟩ = true := by
    rw [isSmallWhole, Bool.and_eq_true, decide_eq_true_eq]
    exact ⟨rfl, h⟩
  cases n with
  | ofNat n =>
    have hn : ¬ (n : Int) < 0 := by omega
    by_cases hz : n = 0
    · subst hz; rfl
    · simp [finiteText?, ofInt, sign, Numeral.writeInt, hn, hz] at hs ⊢
      simp [hs]
  | negSucc n =>
    simp_all [finiteText?, ofInt, sign, Numeral.writeInt, Int.negSucc_lt_zero]

end DeviceShell.Decimal
