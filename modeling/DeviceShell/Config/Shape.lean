import DeviceShell.Json.Basic
import DeviceShell.Settings

/-!
# The shape of a settings file

Three fields are known and all of them may be left out; a field that is there must have one of its
values, and null is not one. Whether a document has this shape is judged by a validator that is not
part of the program. `Validator.Lawful` is what the program relies on: which documents pass, that
their known fields are passed on as they are, and to which places the issues of the others belong. The
words of an issue are the validator's own.
-/
namespace DeviceShell.Config.Shape

/-- What the value of a field may be. -/
inductive Leaf where
  | oneOf (names : List String)
  | boolean
  deriving DecidableEq, Repr

def Leaf.admits : Leaf → Json → Bool
  | .oneOf names, .str s => names.contains s
  | .boolean, .bool _ => true
  | _, _ => false

/-- A field that may be left out. -/
structure Entry where
  field : String
  leaf : Leaf
  deriving DecidableEq, Repr

/-- The field is left out, or it holds what it may. -/
def Entry.admits (e : Entry) (root : Json) : Bool :=
  match root.field? e.field with
  | none => true
  | some value => e.leaf.admits value

/-- What a validator finds wrong. The path leads to the place; the document itself has none. -/
structure Issue where
  path? : Option String
  message : String
  deriving DecidableEq, Repr

def Issue.detail (i : Issue) : String :=
  match i.path? with
  | some path => if path = "" then i.message else path ++ ": " ++ i.message
  | none => i.message

/-- Judges a document by entries, in the order in which they are gone through. A document that passes
comes back as the validator makes it up. -/
structure Validator where
  check : List Entry → Json → Except (List Issue) Json

/-- Fields are looked for in objects, and in arrays, which have none of them. -/
def isRecord : Json → Bool
  | .obj _ => true
  | .arr _ => true
  | _ => false

structure Validator.Lawful (v : Validator) : Prop where
  passes : ∀ entries root, (∃ out, v.check entries root = .ok out) ↔
    isRecord root = true ∧ ∀ e ∈ entries, e.admits root = true
  /-- Known fields are passed on as they are. -/
  keeps : ∀ {entries root out}, v.check entries root = .ok out →
    ∀ e ∈ entries, out.field? e.field = root.field? e.field
  /-- What has no fields at all is one issue. -/
  whole : ∀ {entries root issues}, isRecord root = false → v.check entries root = .error issues →
    ∃ message, issues = [⟨none, message⟩]
  /-- Otherwise there is one issue for each entry that is not met, at its field. -/
  places : ∀ {entries root issues}, isRecord root = true → v.check entries root = .error issues →
    issues.map Issue.path? =
      (entries.filter fun e => !e.admits root).map fun e => some e.field

inductive Field where
  | logLevel
  | output
  | color
  deriving DecidableEq, Repr

namespace Field

def name : Field → String
  | .logLevel => "logLevel"
  | .output => "output"
  | .color => "color"

def leaf : Field → Leaf
  | .logLevel => .oneOf (LogLevel.all.map LogLevel.name)
  | .output => .oneOf (OutputFormat.all.map OutputFormat.name)
  | .color => .boolean

def entry (which : Field) : Entry := ⟨which.name, which.leaf⟩

end Field

/-- The known fields. -/
def entries : List Entry := [Field.logLevel, .output, .color].map Field.entry

def level? : Json → Option LogLevel
  | .str s => LogLevel.ofName? s
  | _ => none

def format? : Json → Option OutputFormat
  | .str s => OutputFormat.ofName? s
  | _ => none

def color? : Json → Option Bool
  | .bool b => some b
  | _ => none

/-- The settings that a file gives. -/
structure Settings where
  level? : Option LogLevel
  format? : Option OutputFormat
  color? : Option Bool
  deriving DecidableEq, Repr

/-- What a document says in one of its fields. -/
def said {α : Type} (root : Json) (which : Field) (value? : Json → Option α) : Option α :=
  (root.field? which.name).bind value?

def Settings.of (root : Json) : Settings :=
  ⟨said root .logLevel Shape.level?, said root .output Shape.format?,
    said root .color Shape.color?⟩

theorem entry_mem (which : Field) : which.entry ∈ entries := by
  cases which <;> simp [entries]

/-- A document that passes gives the settings that it says. -/
theorem Validator.Lawful.settings_of {v : Validator} (hv : v.Lawful) {root out : Json}
    (h : v.check entries root = .ok out) : Settings.of out = Settings.of root := by
  have hsaid : ∀ {α : Type} (which : Field) (value? : Json → Option α),
      said out which value? = said root which value? := by
    intro α which value?
    rw [said, said]
    exact congrArg (·.bind value?) (hv.keeps h which.entry (entry_mem which))
  rw [Settings.of, Settings.of, hsaid, hsaid, hsaid]

end DeviceShell.Config.Shape
