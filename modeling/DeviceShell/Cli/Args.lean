import DeviceShell.Settings

/-!
# Misuse, and passes over an argument list

Flags are taken out of an argument list by passes, each for its own flags. A pass reads the list
once from the left and gives back what it found together with what it leaves. When it meets a flag
without a proper value it stops there: what it took out before stays out, and everything from the
offending flag on is left as it was.

The causes of misuse are listed with their messages, those that subcommands find included.
-/
namespace DeviceShell.Cli

inductive UsageError where
  /-- A flag stands at the end, or before another flag. -/
  | missingValue (flag : String)
  | unknownFormat
  | unknownFlag (flag : String)
  | noLines
  | surplusPrefix
  | unknownLevel (level : LogLevel.Unknown)
  deriving DecidableEq, Repr

def UsageError.message : UsageError → String
  | .missingValue flag => "Flag '" ++ flag ++ "' requires a value."
  | .unknownFormat => "--output format must be one of: text, json."
  | .unknownFlag flag => "Unknown flag '" ++ flag ++ "' for 'parse'."
  | .noLines => "'parse' expects lines as arguments or on stdin."
  | .surplusPrefix => "'complete' takes a single prefix."
  | .unknownLevel level => level.message

namespace Args

/-- What a pass found, or why it stopped, and the arguments it leaves. -/
structure Pass (α : Type) where
  result : Except UsageError α
  rest : List String

/-- Puts an argument that the pass leaves alone in front. -/
def Pass.keep {α : Type} (arg : String) (p : Pass α) : Pass α := ⟨p.result, arg :: p.rest⟩

def Pass.map {α β : Type} (f : α → β) (p : Pass α) : Pass β := ⟨p.result.map f, p.rest⟩

@[simp] theorem Pass.result_keep {α : Type} (arg : String) (p : Pass α) :
    (p.keep arg).result = p.result := rfl

@[simp] theorem Pass.rest_keep {α : Type} (arg : String) (p : Pass α) :
    (p.keep arg).rest = arg :: p.rest := rfl

@[simp] theorem Pass.result_map {α β : Type} (f : α → β) (p : Pass α) :
    (p.map f).result = p.result.map f := rfl

@[simp] theorem Pass.rest_map {α β : Type} (f : α → β) (p : Pass α) :
    (p.map f).rest = p.rest := rfl

def stop {α : Type} (e : UsageError) (rest : List String) : Pass α := ⟨.error e, rest⟩

def isFlag (arg : String) : Bool := Text.hasPrefix "--" arg

/-- Takes out the given flags, each with the argument behind it as its value. A value must be there
and must not look like a flag. The pairs come in the order of the arguments. -/
def extract (names : List String) : List String → Pass (List (String × String))
  | [] => ⟨.ok [], []⟩
  | arg :: args =>
    if arg ∈ names then
      match args with
      | [] => stop (.missingValue arg) [arg]
      | value :: rest =>
        if isFlag value then stop (.missingValue arg) (arg :: value :: rest)
        else (extract names rest).map ((arg, value) :: ·)
    else (extract names args).keep arg

/-- The value of a flag; of several the last counts. -/
def valueOf? (name : String) (pairs : List (String × String)) : Option String :=
  pairs.reverse.lookup name

/-- Takes out `--output` with its value and `--json`; of several the last counts. Here the value is
whatever stands behind the flag, and it must name a format. -/
def takeOutput : List String → Pass (Option OutputFormat)
  | [] => ⟨.ok none, []⟩
  | arg :: args =>
    if arg = "--output" then
      match args with
      | [] => stop (.missingValue "--output") [arg]
      | value :: rest =>
        if value = "" then stop (.missingValue "--output") (arg :: value :: rest)
        else match OutputFormat.ofName? value with
          | none => stop .unknownFormat (arg :: value :: rest)
          | some format => (takeOutput rest).map (·.or (some format))
    else if arg = "--json" then (takeOutput args).map (·.or (some .json))
    else (takeOutput args).keep arg

/-- Takes out every occurrence of a flag without a value, and tells whether there was one. -/
def takeSwitch (name : String) (args : List String) : Bool × List String :=
  (args.contains name, args.filter (· ≠ name))

/-- Arguments on the two sides of the first `--`; those behind it are never flags. -/
structure Separated where
  flagged : List String
  positional : List String
  deriving DecidableEq, Repr

def separate : List String → Separated
  | [] => ⟨[], []⟩
  | arg :: args =>
    if arg = "--" then ⟨[], args⟩
    else
      let s := separate args
      ⟨arg :: s.flagged, s.positional⟩

end Args

end DeviceShell.Cli
