import DeviceShell.Config.Load
import DeviceShell.Config.Validator
import DeviceShell.Report.Diagnosis
import DeviceShell.Text.Utf8

/-!
# The world of a run, and what runs leave behind

A run sees environment variables, files, its input and two terminals; it changes none of them. It
stands on an engine that validates settings, refuses texts that are no JSON in its own words, and
gives errors their stacks. Two settings outlive a run within one process, the log level and the
choice of colour.
-/
namespace DeviceShell

/-- What a run leaves to others. -/
structure Engine where
  validator : Config.Shape.Validator
  lawful : validator.Lawful
  /-- What is said of a text that is no JSON. -/
  syntaxMessage : String → String
  stack : Cause → Option String
  /-- A stack begins with the name of its error, or with what every error is called. -/
  named : ∀ {c name text}, c.name? = some name → stack c = some text → text ≠ "" →
    Text.hasPrefix name text = true ∨ Text.hasPrefix "Error" text = true

namespace Engine

/-- The first line of a stack: the name of an error and its message. -/
def heading (c : Cause) : Option String :=
  c.name?.map fun name => if c.message = "" then name else name ++ ": " ++ c.message

theorem hasPrefix_heading {c : Cause} {name text : String} (hname : c.name? = some name)
    (h : heading c = some text) : Text.hasPrefix name text = true := by
  rw [heading, hname] at h
  obtain rfl := Option.some.inj h
  rw [Text.hasPrefix_iff]
  dsimp only
  split
  · exact List.prefix_refl _
  · rw [String.append_assoc, String.toList_append]
    exact List.prefix_append _ _

/-- An engine whose stacks are one line. -/
def plain : Engine where
  validator := .plain
  lawful := Config.Shape.Validator.lawful_plain
  syntaxMessage _ := "no JSON text"
  stack := heading
  named hname h _ := .inl (hasPrefix_heading hname h)

end Engine

structure World where
  env : Env
  disk : Disk
  /-- The bytes of the input, or the reason why it cannot be read. -/
  stdin : Except String (List UInt8)
  stdinIsTerminal : Bool
  stderrIsTerminal : Bool
  /-- The package manifest, if it can be read. -/
  manifest? : Option String
  engine : Engine

/-- What lasts from one run to the next. -/
structure Session where
  level : LogLevel
  color? : Option Bool
  deriving DecidableEq, Repr

def Session.fresh : Session := ⟨.warn, none⟩

namespace World

/-- No variables, no files and no input, away from any terminal. -/
def empty : World := ⟨.empty, ⟨.ok "/", fun _ => .missing⟩, .ok [], false, false, none, .plain⟩

/-- The text of the input; a terminal is not read and gives none. -/
def input (w : World) : Except String String :=
  if w.stdinIsTerminal then .ok "" else w.stdin.map Text.Utf8.decode

/-- The settings that a run loads. -/
def load (w : World) (asked? : Option String) : Except Config.Failure Config :=
  Config.load w.engine.validator w.engine.syntaxMessage w.disk w.env none asked?

/-- Whether text is styled under a choice of colour. -/
def hasColor (w : World) (choice? : Option Bool) : Bool :=
  Terminal.hasColor choice? (Config.isSet w.env.noColor?) w.stderrIsTerminal

def appearance (w : World) (choice? : Option Bool) : Appearance :=
  ⟨w.hasColor choice?, w.env.debug? = some "1", w.engine.stack⟩

end World

end DeviceShell
