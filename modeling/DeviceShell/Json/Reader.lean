import DeviceShell.Json.Mark

/-!
# Reading JSON

The marks of a document are read in one pass. What is open at any time is a list of frames, the
innermost first, so depth costs nothing but the length of that list. A field name that comes up
again overwrites its value in place.
-/
namespace DeviceShell.Json.Reader

/-- A container that is still open: an array with its items, latest first, an object, or an object
that waits for the value of a field. -/
inductive Frame where
  | array (items : List Json)
  | object (fields : List (String × Json))
  | field (fields : List (String × Json)) (name : String)

/-- What may come next. -/
inductive Phase where
  | value
  | firstItem
  | firstName
  | name
  | colon
  | next
  | finished (v : Json)

structure State where
  phase : Phase
  frames : List Frame

/-- Hands a finished value to the innermost open container. -/
def put (v : Json) : List Frame → Option State
  | [] => some ⟨.finished v, []⟩
  | .array items :: outer => some ⟨.next, .array (v :: items) :: outer⟩
  | .field fields name :: outer => some ⟨.next, .object (putField name v fields) :: outer⟩
  | .object _ :: _ => none

def beginValue (frames : List Frame) : Mark → Option State
  | .scalar v => put v frames
  | .text s => put (.str s) frames
  | .openArray => some ⟨.firstItem, .array [] :: frames⟩
  | .openObject => some ⟨.firstName, .object [] :: frames⟩
  | _ => none

def closeArray : List Frame → Option State
  | .array items :: outer => put (.arr items.reverse) outer
  | _ => none

def closeObject : List Frame → Option State
  | .object fields :: outer => put (.obj fields) outer
  | _ => none

def beginField (name : String) : List Frame → Option State
  | .object fields :: outer => some ⟨.colon, .field fields name :: outer⟩
  | _ => none

def step (s : State) (m : Mark) : Option State :=
  match s.phase, m with
  | .value, m => beginValue s.frames m
  | .firstItem, .closeArray => closeArray s.frames
  | .firstItem, m => beginValue s.frames m
  | .firstName, .closeObject => closeObject s.frames
  | .firstName, .text name => beginField name s.frames
  | .name, .text name => beginField name s.frames
  | .colon, .colon => some ⟨.value, s.frames⟩
  | .next, .closeArray => closeArray s.frames
  | .next, .closeObject => closeObject s.frames
  | .next, .comma =>
    match s.frames with
    | .array _ :: _ => some ⟨.value, s.frames⟩
    | .object _ :: _ => some ⟨.name, s.frames⟩
    | _ => none
  | _, _ => none

def result? (s : State) : Option Json :=
  match s.phase with
  | .finished v => some v
  | _ => none

end DeviceShell.Json.Reader

namespace DeviceShell.Json

/-- The value of a whole document, or `none` when the text is no JSON. -/
def read? (text : String) : Option Json := do
  let marks ← Mark.ofText? text
  let last ← marks.foldlM Reader.step ⟨.value, []⟩
  Reader.result? last

end DeviceShell.Json
