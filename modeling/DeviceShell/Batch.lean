import DeviceShell.Command.Parser
import DeviceShell.Text.Ends

/-!
# Batches of lines

Lines come from the arguments of an invocation or from a text. A text is cut at every line feed,
and a carriage return just before it belongs to the cut; blank lines and comments, which begin with
`#`, are left out but counted, so a line keeps the number it has in the text. Each line is parsed
on its own and a rejected one stops nothing.
-/
namespace DeviceShell.Batch

/-- A line and its number. Lines of a text or of arguments count from one. -/
structure Line where
  number : Int
  text : String
  deriving DecidableEq, Repr

/-- The pieces of the text behind a point, and whether it starts with a line feed. -/
structure Cut where
  atLineFeed : Bool
  first : List Char
  later : List (List Char)

/-- Extends a cut text by one character in front. -/
def Cut.extend (c : Char) (behind : Cut) : Cut :=
  if c = '\n' then ⟨true, [], behind.first :: behind.later⟩
  else if c = '\r' ∧ behind.atLineFeed then ⟨false, behind.first, behind.later⟩
  else ⟨false, c :: behind.first, behind.later⟩

/-- The pieces of a text between its line ends; there is always one. -/
def pieces (cs : List Char) : List (List Char) :=
  let cut := cs.foldr Cut.extend ⟨false, [], []⟩
  cut.first :: cut.later

/-- Numbers texts from `start` on. -/
def numberFrom (start : Int) : List String → List Line
  | [] => []
  | text :: rest => ⟨start, text⟩ :: numberFrom (start + 1) rest

def number (texts : List String) : List Line := numberFrom 1 texts

/-- Blank lines and comments carry no command. -/
def isSkipped (text : String) : Bool :=
  Text.isBlankText text || Text.hasPrefix "#" (Text.trim text)

/-- The lines of a text that are to be parsed. -/
def split (input : String) : List Line :=
  (number ((pieces input.toList).map String.ofList)).filter fun line => !isSkipped line.text

/-- A line and what became of it. -/
structure Outcome where
  line : Line
  result : Except ParseError Command

def Outcome.accepted (o : Outcome) : Bool :=
  match o.result with
  | .ok _ => true
  | .error _ => false

def parse (lines : List Line) : List Outcome := lines.map fun line => ⟨line, Command.parse line.text⟩

def errorJson (e : ParseError) : Json :=
  .obj [("kind", .str e.kind.name), ("message", .str e.message), ("token", .str e.token),
    ("position", .ofInt e.position)]

/-- The entry of a line in a JSON document: its number, its text, and its command or error. -/
def Outcome.toJson (o : Outcome) : Json :=
  .obj [("lineNumber", .ofInt o.line.number), ("line", .str o.line.text),
    match o.result with
    | .ok command => ("command", command.toJson)
    | .error e => ("error", errorJson e)]

end DeviceShell.Batch
