import Remix.CommandLine.Run
import Std.Time.Format

/-!
# The program

Lays out a tree of the files that a command may look at, runs the command on it, shows what there is
to see, and writes what has changed.
-/

namespace Remix.Main

open CommandLine

/-- A path of the system. -/
def real (path : String) := do return (← IO.currentDir) / path

/-- What there is at a path: nothing, a folder without its children, or a file without its
content. -/
def kindOf (path : String) : IO (Option Entry) := do
  let p ← real path
  if ← p.isDir then return some (.folder [])
  else if ← p.pathExists then return some (.file [])
  else return none

def contentOf (path : String) : IO Bytes := do
  return (← IO.FS.readBinFile (← real path)).toList

def systemPath (names : List String) : String := "/" ++ "/".intercalate names

/-- The tree with a file where names lead, if nothing is there. -/
def addFileOnce (f : Files) (names : List String) (content : Bytes) : Files :=
  if (f.get? names).isSome then f else f.addFile names content

/-- The tree with everything on the way of a path. -/
def addPath (f : Files) (path : String) (withContent : Bool) : IO Files := do
  let mut f := f
  let mut names := f.origin path
  for step in pathSteps path do
    names := stepFrom names step
    match ← kindOf (systemPath names) with
    | none => return f
    | some (.folder _) => f := f.addFolder names
    | some (.file _) =>
      f := addFileOnce f names (← if withContent then contentOf (systemPath names) else pure [])
  return f

/-- The tree with the files of stems in a folder. Links are left out. -/
def addStems (f : Files) (names : List String) : Nat → IO Files
  | 0 => return f
  | depth + 1 => do
    let mut f := f
    for child in ← (← real (systemPath names)).readDir do
      let inner := names ++ [child.fileName]
      match (← child.path.symlinkMetadata).type with
      | .dir =>
        f ← addStems (f.addFolder inner) inner depth
      | .file =>
        let isStem := (stemOfFileName? child.fileName).isSome
        f := addFileOnce f inner (← if isStem then contentOf (systemPath inner) else pure [])
      | _ => continue
    return f

/-- The recipe of a command, and what a render may read and write. -/
def filesFor (here : List String) (c : Command) : IO Files := do
  let ofRecipe (f : Files) : RecipeSource → IO Files
    | .text _ => return f
    | .file path => addPath f path true
  let f := Files.emptyAt here
  match c with
  | .check recipe | .format recipe => ofRecipe f recipe
  | .actions => return f
  | .render recipe o => do
    let mut f ← ofRecipe f recipe
    if let some path := o.settings then f ← addPath f path true
    f ← addPath f o.stems false
    if (f.folder? o.stems).isSome then
      f ← addStems f (f.place o.stems) stemDepth
    f ← addPath f o.output false
    if let some path := o.report then f ← addPath f path false
    return f

/-- The paths that a command may write. -/
def written : Command → List String
  | .render _ o => o.output :: o.report.toList
  | _ => []

/-- Writes the files at the paths of a command that are not as they were. -/
def writeChanges (before after : Files) (c : Command) : IO Unit := do
  for path in written c do
    if let .ok content := after.read path then
      if (before.read path).toOption ≠ some content then
        IO.FS.writeBinFile (← real path) content.toByteArray

def showNotice (level : Severity) : Notice → IO Unit
  | .printed text => IO.print text
  | .excerpt text => IO.eprintln text
  | .event e => do
    for (severity, line) in logOf level (fun _ => none) [e] do
      IO.eprintln s!"[{severity.name}] {line}"

/-- A random identifier, and the time. -/
def newStamp : IO Stamp := do
  let random := hexText (← IO.getRandomBytes 16).toList
  let group (start length : Nat) : String :=
    String.ofList ((random.toList.drop start).take length)
  let run := "-".intercalate
    [group 0 8, group 8 4, "4" ++ group 13 3, "a" ++ group 17 3, group 20 12]
  let now := Std.Time.DateTime.ofTimestampWithZone (← Std.Time.Timestamp.now) Std.Time.TimeZone.UTC
  return ⟨run, now.format "uuuu-MM-dd'T'HH:mm:ss.SSSSSSSSS'Z'", 0⟩

def usage : String :=
  "Usage: stemweave-cli [-v] check (-r <RECIPE> | -f <FILE>)\n" ++
  "       stemweave-cli [-v] fmt (-r <RECIPE> | -f <FILE>)\n" ++
  "       stemweave-cli [-v] render -s <STEMS> (-r <RECIPE> | -f <FILE>) [-c <CONFIG>]\n" ++
  "                     [--bit-depth <N>] [--normalize] [--report <PATH>] <OUTPUT>\n" ++
  "       stemweave-cli [-v] actions"

/-- Runs what was asked for and gives the exit code. -/
def invoke (i : Invocation) : IO Nat := do
  let began ← IO.monoMsNow
  let here := (pathSteps (← IO.currentDir).toString).filter (· ≠ "")
  let f ← filesFor here i.command
  let stamp ← newStamp
  let outcome := i.command.run f { stamp with elapsed := (← IO.monoMsNow) - began }
  for notice in outcome.notices do
    showNotice (if i.verbose then .debug else .info) notice
  writeChanges f outcome.files i.command
  if let some failure := outcome.failure then
    IO.eprintln s!"Error: {failure.message}"
    for hint in failure.hints do
      IO.eprintln s!"  hint: {hint}"
  return outcome.exitCode

end Remix.Main

open Remix CommandLine in
def main (args : List String) : IO UInt32 := do
  match Invocation.ofArguments args with
  | .ok i => return (← Remix.Main.invoke i).toUInt32
  | .error refusal =>
    if refusal.exitCode = 0 then IO.println Remix.Main.usage else IO.eprintln Remix.Main.usage
    return refusal.exitCode.toUInt32
