import DeviceShell.Json.Basic
import DeviceShell.Json.Number
import DeviceShell.Text.Units

/-!
# The marks of a JSON text

A document is first cut into marks: brackets, separators, strings, and the words that stand for
themselves (numbers, truth values, null). A string is gathered as sixteen-bit units, since its
escapes spell units and a pair of them is one character. Four characters may stand between marks:
space, tab, line feed and carriage return; a byte order mark may not.
-/
namespace DeviceShell.Json

inductive Mark where
  | openArray
  | closeArray
  | openObject
  | closeObject
  | comma
  | colon
  | text (s : String)
  | scalar (v : Json)

namespace Mark

/-- Where the cutting stands inside a document. Gathered characters and units come latest first. -/
inductive Mode where
  | between
  | word (gathered : List Char)
  | text (units : List Nat)
  | escape (units : List Nat)
  | code (units : List Nat) (missing value : Nat)

/-- The marks so far, latest first. -/
structure Scan where
  mode : Mode
  marks : List Mark

def isSpace (c : Char) : Bool := c == ' ' || c == '\t' || c == '\n' || c == '\r'

def isWordChar (c : Char) : Bool := c.isAlphanum || c == '+' || c == '-' || c == '.'

def scalar? (word : List Char) : Option Json :=
  if word = "null".toList then some .null
  else if word = "true".toList then some (.bool true)
  else if word = "false".toList then some (.bool false)
  else (Number.read? word).map .num

/-- Cuts at a character that is outside every word and string. -/
def cut (marks : List Mark) (c : Char) : Option Scan :=
  if c = '[' then some ⟨.between, .openArray :: marks⟩
  else if c = ']' then some ⟨.between, .closeArray :: marks⟩
  else if c = '\x7b' then some ⟨.between, .openObject :: marks⟩
  else if c = '\x7d' then some ⟨.between, .closeObject :: marks⟩
  else if c = ',' then some ⟨.between, .comma :: marks⟩
  else if c = ':' then some ⟨.between, .colon :: marks⟩
  else if c = '"' then some ⟨.text [], marks⟩
  else if isSpace c then some ⟨.between, marks⟩
  else if isWordChar c then some ⟨.word [c], marks⟩
  else none

/-- The unit that a one-letter escape stands for. -/
def letterUnit? (c : Char) : Option Nat :=
  if c = '"' ∨ c = '\\' ∨ c = '/' then some c.toNat
  else if c = 'b' then some 0x08
  else if c = 'f' then some 0x0C
  else if c = 'n' then some 0x0A
  else if c = 'r' then some 0x0D
  else if c = 't' then some 0x09
  else none

def hexValue? (c : Char) : Option Nat :=
  if '0' ≤ c ∧ c ≤ '9' then some (c.toNat - '0'.toNat)
  else if 'a' ≤ c ∧ c ≤ 'f' then some (c.toNat - 'a'.toNat + 10)
  else if 'A' ≤ c ∧ c ≤ 'F' then some (c.toNat - 'A'.toNat + 10)
  else none

def step (s : Scan) (c : Char) : Option Scan :=
  match s.mode with
  | .between => cut s.marks c
  | .word gathered =>
    if isWordChar c then some ⟨.word (c :: gathered), s.marks⟩
    else (scalar? gathered.reverse).bind fun v => cut (.scalar v :: s.marks) c
  | .text units =>
    if c = '"' then
      some ⟨.between, .text (String.ofList (Text.ofUnits units.reverse)) :: s.marks⟩
    else if c = '\\' then some ⟨.escape units, s.marks⟩
    else if c.toNat < 0x20 then none
    else some ⟨.text ((Text.unitsOf c).reverse ++ units), s.marks⟩
  | .escape units =>
    if c = 'u' then some ⟨.code units 4 0, s.marks⟩
    else (letterUnit? c).map fun u => ⟨.text (u :: units), s.marks⟩
  | .code units missing value =>
    (hexValue? c).map fun h =>
      if missing ≤ 1 then ⟨.text ((value * 16 + h) :: units), s.marks⟩
      else ⟨.code units (missing - 1) (value * 16 + h), s.marks⟩

/-- Only a word may reach the end of the document; an open string may not. -/
def finish (s : Scan) : Option (List Mark) :=
  match s.mode with
  | .between => some s.marks.reverse
  | .word gathered => (scalar? gathered.reverse).map fun v => (.scalar v :: s.marks).reverse
  | _ => none

def ofText? (s : String) : Option (List Mark) :=
  (s.toList.foldlM step ⟨.between, []⟩).bind finish

end Mark

end DeviceShell.Json
