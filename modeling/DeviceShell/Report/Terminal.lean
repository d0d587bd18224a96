/-!
# Colours of the terminal

Text is styled by a pair of escape sequences around it, or not at all. An explicit choice settles
which; without one, colour is off when the environment declines it with a value that is not empty,
and otherwise on exactly at a terminal.
-/
namespace DeviceShell.Terminal

inductive Style where
  | bold
  | dim
  | faint
  | red
  | yellow
  deriving DecidableEq, Repr

/-- The code that begins a style. -/
def Style.opening : Style → String
  | .bold => "1"
  | .dim => "2"
  | .faint => "90"
  | .red => "31"
  | .yellow => "33"

/-- The code that ends a style: weight or colour back to normal. -/
def Style.closing : Style → String
  | .bold => "22"
  | .dim => "22"
  | .faint => "39"
  | .red => "39"
  | .yellow => "39"

def sequence (code : String) : String := "\x1b[" ++ code ++ "m"

def paint (color : Bool) (style : Style) (text : String) : String :=
  if color then sequence style.opening ++ text ++ sequence style.closing else text

def hasColor (choice? : Option Bool) (declined isTerminal : Bool) : Bool :=
  choice?.getD (!declined && isTerminal)

end DeviceShell.Terminal
