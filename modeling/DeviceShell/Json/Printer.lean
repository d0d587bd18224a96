import DeviceShell.Decimal.Shortest
import DeviceShell.Json.Basic

/-!
# Writing JSON

A value has a compact text, on one line and without spaces, and an indented one, with one item or
field a line, two spaces a level, and nothing between the brackets of an empty array or object. A
number too large for a double has no JSON text and is written as `null`.
-/
namespace DeviceShell.Json

def numberText (d : Decimal) : String := d.finiteText?.getD "null"

def boolText (b : Bool) : String := if b then "true" else "false"

mutual

def compact : Json → String
  | .null => "null"
  | .bool b => boolText b
  | .num d => numberText d
  | .str s => quote s
  | .arr items => "[" ++ ",".intercalate (compactItems items) ++ "]"
  | .obj fields => "\x7b" ++ ",".intercalate (compactFields fields) ++ "\x7d"
  termination_by structural v => v

def compactItems : List Json → List String
  | [] => []
  | v :: vs => compact v :: compactItems vs
  termination_by structural vs => vs

def compactFields : List (String × Json) → List String
  | [] => []
  | (k, v) :: rest => (quote k ++ ":" ++ compact v) :: compactFields rest
  termination_by structural fs => fs

end

def spaces (n : Nat) : String := String.ofList (List.replicate n ' ')

/-- Puts indented items between brackets; an empty list closes at once. -/
def block (opening closing : String) (margin : Nat) (items : List String) : String :=
  if items.isEmpty then opening ++ closing
  else
    opening ++ "\n" ++ ",\n".intercalate (items.map (spaces (margin + 2) ++ ·)) ++
      "\n" ++ spaces margin ++ closing

mutual

/-- Indented text of a value whose first line starts at the given margin. -/
def indentedAt (margin : Nat) : Json → String
  | .null => "null"
  | .bool b => boolText b
  | .num d => numberText d
  | .str s => quote s
  | .arr items => block "[" "]" margin (indentedItems (margin + 2) items)
  | .obj fields => block "\x7b" "\x7d" margin (indentedFields (margin + 2) fields)
  termination_by structural v => v

def indentedItems (margin : Nat) : List Json → List String
  | [] => []
  | v :: vs => indentedAt margin v :: indentedItems margin vs
  termination_by structural vs => vs

def indentedFields (margin : Nat) : List (String × Json) → List String
  | [] => []
  | (k, v) :: rest => (quote k ++ ": " ++ indentedAt margin v) :: indentedFields margin rest
  termination_by structural fs => fs

end

def indented (v : Json) : String := indentedAt 0 v

end DeviceShell.Json
