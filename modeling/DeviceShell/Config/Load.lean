import DeviceShell.Config.Basic
import DeviceShell.Json.Reader
import DeviceShell.Path

/-!
# Loading settings

The file comes first, then the environment overrides it. A file that was asked for must exist; the
default one may be missing. The first fault ends the loading: reading the file, its absence, its
shape, the level of the environment, its format. Before all of them stands the working directory,
which is asked for only where the path of the file hangs on it.

Two parts of the loading are not the program's own: the validator of the shape, and the words in
which a text that is no JSON is refused.
-/
namespace DeviceShell

/-- What reading a file gives. A failure may come with the code of its kind. -/
inductive FileRead where
  | content (text : String)
  | failed (code? : Option String) (reason : String)
  deriving DecidableEq, Repr

/-- There is no such file. -/
def FileRead.missing : FileRead := .failed (some "ENOENT") "no such file or directory"

/-- The files, and the working directory or the reason why it cannot be told. -/
structure Disk where
  cwd : Except String String
  read : String → FileRead

namespace Config

/-- The absolute path of the file that is read: the one asked for or the default one, seen from
`root` or, if there is none, from the working directory. A root that is relative is itself seen from
there, unless the path to the file is absolute. -/
def pathOf (cwd : Except String String) (root? asked? : Option String) : Except String String :=
  let file := asked?.getD defaultFile
  match root? with
  | none => cwd.map fun directory => Path.resolve [directory, file]
  | some root =>
    if Path.isAbsolute root || Path.isAbsolute file then .ok (Path.resolve [root, file])
    else cwd.map fun directory => Path.resolve [directory, root, file]

/-- The settings of the file at a path; `none` if it is missing and may be. -/
def ofFile (v : Shape.Validator) (syntaxMessage : String → String) (disk : Disk) (path : String)
    (required : Bool) : Except Error (Option Shape.Settings) :=
  match disk.read path with
  | .failed code? reason =>
    if code? = some "ENOENT" then if required then .error (.notFound path) else .ok none
    else .error (.unreadable path reason)
  | .content text =>
    match Json.read? text with
    | none => .error (.unreadable path (syntaxMessage text))
    | some root =>
      match v.check Shape.entries root with
      | .ok out => .ok (some (.of out))
      | .error issues => .error (.misshapen path issues)

/-- The defaults under the settings of a file. -/
def underFile (path : String) : Option Shape.Settings → Config
  | none => default
  | some s => ⟨s.level?.getD default.level, s.format?.getD default.format, s.color?, some path⟩

/-- The format that the environment asks for; a blank one asks for nothing. -/
def formatOf (given : Option String) (fallback : OutputFormat) : Except Error OutputFormat :=
  let name := Text.trim (given.getD "")
  if name = "" then .ok fallback
  else match OutputFormat.ofName? name with
    | some format => .ok format
    | none => .error (.unknownFormat name)

/-- A variable counts as set when it is there and not empty. -/
def isSet (value? : Option String) : Bool := value?.getD "" ≠ ""

/-- The environment over the settings of the file. -/
def underEnv (env : Env) (c : Config) : Except Error Config := do
  let level ← (LogLevel.choose env.logLevel? c.level).mapError .unknownLevel
  let format ← formatOf env.output? c.format
  let color? := if isSet env.noColor? then some false else c.color?
  return ⟨level, format, color?, c.path?⟩

/-- Loading, once it is settled which file is read. -/
def loadAt (v : Shape.Validator) (syntaxMessage : String → String) (disk : Disk) (env : Env)
    (path : String) (required : Bool) : Except Error Config := do
  let settings? ← ofFile v syntaxMessage disk path required
  underEnv env (underFile path settings?)

def load (v : Shape.Validator) (syntaxMessage : String → String) (disk : Disk) (env : Env)
    (root? asked? : Option String) : Except Failure Config :=
  match pathOf disk.cwd root? asked? with
  | .error reason => .error (.directory reason)
  | .ok path => (loadAt v syntaxMessage disk env path asked?.isSome).mapError .settings

section

variable {v : Shape.Validator} {syntaxMessage : String → String} {disk : Disk} {env : Env}

/-- What a file gives is what a document says that passes, or nothing where the file is missing. -/
theorem source_of_ofFile {path : String} {required : Bool} {settings? : Option Shape.Settings}
    (h : ofFile v syntaxMessage disk path required = .ok settings?) :
    (settings? = none ∧ ∃ reason, disk.read path = .failed (some "ENOENT") reason) ∨
    ∃ text root out, disk.read path = .content text ∧ Json.read? text = some root ∧
      v.check Shape.entries root = .ok out ∧ settings? = some (.of out) := by
  unfold ofFile at h
  cases hr : disk.read path with
  | failed code? reason =>
    rw [hr] at h
    dsimp only at h
    split at h
    · next hcode =>
      split at h
      · cases h
      · exact .inl ⟨(Except.ok.inj h).symm, reason, by rw [hcode]⟩
    · cases h
  | content text =>
    rw [hr] at h
    dsimp only at h
    cases hj : Json.read? text with
    | none => rw [hj] at h; cases h
    | some root =>
      rw [hj] at h
      dsimp only at h
      cases hc : v.check Shape.entries root with
      | error issues => rw [hc] at h; cases h
      | ok out =>
        rw [hc] at h
        exact .inr ⟨text, root, out, rfl, hj, hc, (Except.ok.inj h).symm⟩

theorem ok_of_mapError {ε ε' α : Type} {x : Except ε α} {f : ε → ε'} {a : α}
    (h : x.mapError f = .ok a) : x = .ok a := by
  cases x with
  | error e => cases h
  | ok b => rw [Except.ok.inj h]

/-- The steps of a loading that succeeds. -/
theorem steps_of_load {root? asked? : Option String} {c : Config}
    (h : load v syntaxMessage disk env root? asked? = .ok c) :
    ∃ path settings?, pathOf disk.cwd root? asked? = .ok path ∧
      ofFile v syntaxMessage disk path asked?.isSome = .ok settings? ∧
      underEnv env (underFile path settings?) = .ok c := by
  unfold load at h
  cases hp : pathOf disk.cwd root? asked? with
  | error reason => rw [hp] at h; cases h
  | ok path =>
    rw [hp] at h
    have hload := ok_of_mapError h
    rw [loadAt] at hload
    cases hf : ofFile v syntaxMessage disk path asked?.isSome with
    | error e => rw [hf] at hload; cases hload
    | ok settings? =>
      rw [hf] at hload
      exact ⟨path, settings?, rfl, hf, hload⟩

/-- Loading that knows no working directory knows no path. -/
theorem pathOf_of_load {root? asked? : Option String} {reason : String}
    (h : load v syntaxMessage disk env root? asked? = .error (.directory reason)) :
    pathOf disk.cwd root? asked? = .error reason := by
  unfold load at h
  cases hp : pathOf disk.cwd root? asked? with
  | error found =>
    rw [hp] at h
    rw [Failure.directory.inj (Except.error.inj h)]
  | ok path =>
    rw [hp] at h
    dsimp only at h
    cases hl : loadAt v syntaxMessage disk env path asked?.isSome with
    | error e => rw [hl] at h; cases h
    | ok c => rw [hl] at h; cases h

end

end Config

end DeviceShell
