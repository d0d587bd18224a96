import DeviceShell.Text.Units

/-!
# Reading UTF-8

Bytes become characters one at a time. A sequence that breaks off, that is overlong, that spells
half of a pair or that lies beyond the last code point gives one replacement character for its
longest beginning that some well-formed sequence shares; the byte that broke it is then read
afresh. A byte order mark is an ordinary character.
-/
namespace DeviceShell.Text.Utf8

/-- A sequence that has begun: the bits so far, the bytes still to come, and the range in which
the next of them must lie. -/
structure Pending where
  bits : Nat
  missing : Nat
  low : Nat
  high : Nat
  deriving DecidableEq, Repr

/-- A lead byte, or a character of its own. Narrowed ranges after `E0`, `ED`, `F0` and `F4` keep
out overlong forms, halves of pairs and code points past the end. -/
def start (b : Nat) : List Char × Option Pending :=
  if b < 0x80 then ([Char.ofNat b], none)
  else if 0xC2 ≤ b ∧ b ≤ 0xDF then ([], some ⟨b - 0xC0, 1, 0x80, 0xBF⟩)
  else if b = 0xE0 then ([], some ⟨0, 2, 0xA0, 0xBF⟩)
  else if b = 0xED then ([], some ⟨0xD, 2, 0x80, 0x9F⟩)
  else if 0xE1 ≤ b ∧ b ≤ 0xEF then ([], some ⟨b - 0xE0, 2, 0x80, 0xBF⟩)
  else if b = 0xF0 then ([], some ⟨0, 3, 0x90, 0xBF⟩)
  else if b = 0xF4 then ([], some ⟨4, 3, 0x80, 0x8F⟩)
  else if 0xF1 ≤ b ∧ b ≤ 0xF3 then ([], some ⟨b - 0xF0, 3, 0x80, 0xBF⟩)
  else ([replacement], none)

/-- What one byte adds to the text, and what it leaves under way. -/
def advance (pending : Option Pending) (b : Nat) : List Char × Option Pending :=
  match pending with
  | none => start b
  | some p =>
    if p.low ≤ b ∧ b ≤ p.high then
      let bits := p.bits * 0x40 + (b - 0x80)
      if p.missing ≤ 1 then ([Char.ofNat bits], none)
      else ([], some ⟨bits, p.missing - 1, 0x80, 0xBF⟩)
    else
      let (out, next) := start b
      (replacement :: out, next)

/-- The text under construction, last character first. -/
structure Progress where
  out : List Char
  pending : Option Pending

def Progress.feed (p : Progress) (b : UInt8) : Progress :=
  let (out, pending) := advance p.pending b.toNat
  ⟨out.reverse ++ p.out, pending⟩

/-- An unfinished sequence at the end counts as one broken sequence. -/
def Progress.finish (p : Progress) : List Char :=
  match p.pending with
  | none => p.out.reverse
  | some _ => (replacement :: p.out).reverse

def decode (bytes : List UInt8) : String :=
  String.ofList (bytes.foldl Progress.feed ⟨[], none⟩).finish

end DeviceShell.Text.Utf8
