import DeviceShell.Cli.Run

/-!
# The program

Gathers the part of the world that a run looks at, runs, and writes what came of it.
-/
namespace DeviceShell.Main

def readEnv : IO Env := do
  return ⟨← IO.getEnv "SCANSHELL_LOG_LEVEL", ← IO.getEnv "SCANSHELL_OUTPUT",
    ← IO.getEnv "NO_COLOR", ← IO.getEnv "SCANSHELL_DEBUG"⟩

/-- Does something that may fail; the error is kept as a text. -/
def attempt {α : Type} (action : IO α) : IO (Except String α) := do
  try
    return .ok (← action)
  catch e => return .error (toString e)

def readFile (path : String) : IO FileRead := do
  try
    let bytes ← IO.FS.readBinFile path
    return .content (Text.Utf8.decode bytes.toList)
  catch
    | .noFileOrDirectory .. => return .missing
    | e => return .failed none (toString e)

def readDisk (argv : List String) : IO Disk := do
  let cwd ← attempt (toString <$> IO.currentDir)
  match Cli.Demand.file? cwd argv with
  | none => return ⟨cwd, fun _ => .missing⟩
  | some path =>
    let content ← readFile path
    return ⟨cwd, fun asked => if asked = path then content else .missing⟩

/-- The bytes of the input, if the arguments ask for it and it is no terminal. -/
def readInput (argv : List String) (stdin : IO.FS.Stream) : IO (Except String (List UInt8)) := do
  if Cli.Demand.input argv && !(← stdin.isTty) then
    attempt do
      return (← stdin.readBinToEnd).toList
  else return .ok []

/-- The manifest stands one level above the directory of the program. -/
def readManifest : IO (Option String) := do
  match ← readFile (Path.resolve [toString (← IO.appPath), "../../package.json"]) with
  | .content text => return some text
  | .failed .. => return none

def readWorld (argv : List String) : IO World := do
  let stdin ← IO.getStdin
  return {
    env := ← readEnv
    disk := ← readDisk argv
    stdin := ← readInput argv stdin
    stdinIsTerminal := ← stdin.isTty
    stderrIsTerminal := ← (← IO.getStderr).isTty
    manifest? := ← readManifest
    engine := .plain }

end DeviceShell.Main

def main (argv : List String) : IO UInt32 := do
  let outcome := DeviceShell.Cli.program (← DeviceShell.Main.readWorld argv) .fresh argv
  for line in outcome.stderr do
    IO.eprintln line
  for line in outcome.stdout do
    IO.println line
  return UInt32.ofNat (outcome.exitCode?.getD 0)
