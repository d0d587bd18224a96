import DeviceShell.Decimal.Binary64

/-!
# The grammar of numbers

A JSON number has an optional minus sign, a whole part without needless zeros, and optionally a
fraction and an exponent, each with at least one digit.
-/
namespace DeviceShell.Json.Number

def digits (cs : List Char) : List Char × List Char := (cs.takeWhile Char.isDigit, cs.dropWhile Char.isDigit)

def natOf (ds : List Char) : Nat := Nat.ofDigitChars 10 ds 0

def sign : List Char → Bool × List Char
  | '-' :: cs => (true, cs)
  | cs => (false, cs)

/-- A single zero, or digits that begin with another one. -/
def isWhole : List Char → Bool
  | [] => false
  | ['0'] => true
  | d :: _ => d != '0'

/-- The digits after a point; none without a point. -/
def fraction? : List Char → Option (List Char × List Char)
  | '.' :: cs =>
    let (ds, rest) := digits cs
    if ds.isEmpty then none else some (ds, rest)
  | cs => some ([], cs)

def exponentValue? (cs : List Char) : Option Int :=
  let (negative, cs) := match cs with
    | '+' :: r => (false, r)
    | '-' :: r => (true, r)
    | r => (false, r)
  let (ds, rest) := digits cs
  if ds.isEmpty || !rest.isEmpty then none
  else if negative then some (-(natOf ds : Int)) else some (natOf ds)

/-- The exponent that ends a number. -/
def exponent? : List Char → Option Int
  | [] => some 0
  | c :: cs => if c == 'e' || c == 'E' then exponentValue? cs else none

/-- Reads a whole number text. -/
def read? (cs : List Char) : Option Decimal := do
  let (negative, cs) := sign cs
  let (whole, cs) := digits cs
  if !isWhole whole then none
  let (places, cs) ← fraction? cs
  let exponent ← exponent? cs
  return ⟨negative, natOf (whole ++ places), exponent - places.length⟩

end DeviceShell.Json.Number
