import DeviceShell.Text.Ends
import DeviceShell.Text.Units

/-!
# Words of a line

A line is read as the longest runs of characters that are not blank. Each run keeps the offset of
its first unit, so that a report can point back into the line. The words are found from the end of
the line: a character joins the word behind it exactly when that word starts where the character
ends.
-/
namespace DeviceShell

/-- A word of a line and the offset at which it starts. -/
structure Token where
  text : String
  position : Nat
  deriving DecidableEq, Repr

namespace Token

/-- The offset just behind the word. -/
def stop (t : Token) : Nat := t.position + Text.unitLength t.text

/-- Puts a character that is not blank in front of the words behind it. -/
def attach (c : Char) (offset : Nat) : List (Nat × List Char) → List (Nat × List Char)
  | [] => [(offset, [c])]
  | (start, cs) :: rest =>
    if start = offset + Text.unitWidth c then (offset, c :: cs) :: rest
    else (offset, [c]) :: (start, cs) :: rest

/-- The words of a text that starts at the given offset. -/
def words (offset : Nat) : List Char → List (Nat × List Char)
  | [] => []
  | c :: cs =>
    let behind := words (offset + Text.unitWidth c) cs
    if Text.isBlank c then behind else attach c offset behind

def ofLine (line : String) : List Token :=
  (words 0 line.toList).map fun (start, cs) => ⟨String.ofList cs, start⟩

end Token

end DeviceShell
