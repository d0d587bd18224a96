import DeviceShell.Decimal.Binary64

/-!
# JSON values and quoted text

An object is a list of fields in the order in which their names first came up; writing to a name
that is already there changes the value in its place. So the order of a document's fields is the
order in which they are written again.

A string stands between double quotes. Only the quote, the backslash and the controls below
the space are escaped: seven of them by one letter or themselves, the other controls by four
hexadecimal digits in lower case. All else stands as it is, so a quoted text never holds a line
break.
-/
namespace DeviceShell

inductive Json where
  | null
  | bool (b : Bool)
  | num (d : Decimal)
  | str (s : String)
  | arr (items : List Json)
  | obj (fields : List (String × Json))
  deriving Repr, Inhabited

namespace Json

def ofInt (n : Int) : Json := .num (.ofInt n)

/-- Writes a field: in its place when the name is known, at the end otherwise. -/
def putField (name : String) (value : Json) : List (String × Json) → List (String × Json)
  | [] => [(name, value)]
  | (k, v) :: rest =>
    if k = name then (k, value) :: rest else (k, v) :: putField name value rest

/-- The value of a field of an object; other values have no fields. -/
def field? (name : String) : Json → Option Json
  | .obj fields => fields.lookup name
  | _ => none

/-- What one character becomes inside quotes. -/
def escape (c : Char) : List Char :=
  if c = '"' then ['\\', '"']
  else if c = '\\' then ['\\', '\\']
  else if c = '\x08' then ['\\', 'b']
  else if c = '\x0c' then ['\\', 'f']
  else if c = '\n' then ['\\', 'n']
  else if c = '\r' then ['\\', 'r']
  else if c = '\t' then ['\\', 't']
  else if c.toNat < 0x20 then
    ['\\', 'u', '0', '0', Nat.digitChar (c.toNat / 16), Nat.digitChar (c.toNat % 16)]
  else [c]

def quote (s : String) : String :=
  String.ofList ('"' :: s.toList.flatMap escape ++ ['"'])

end Json

end DeviceShell
