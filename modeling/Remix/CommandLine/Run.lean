import Remix.CommandLine.Arguments
import Remix.Report
import Remix.Settings.File
import Remix.StemFolder
import Remix.Text.Excerpt

/-!
# Running commands

What each command prints and writes. A recipe is compiled before any other file is looked at, so
that a wrong recipe ends every command alike.
-/

namespace Remix.CommandLine

open Text (padLeft padRight)

/-- Something that a command lets the user see. An excerpt goes where errors go. -/
inductive Notice where
  | event (e : Event)
  | printed (text : String)
  | excerpt (text : String)

/-- Why a command ends without success. -/
inductive Failure where
  | error (e : Error)
  | unreadableRecipe (path : String) (fault : FileFault)

namespace Failure

/-- The message of a failure followed by that of its cause. -/
def message : Failure → String
  | error e => e.fullMessage
  | unreadableRecipe path fault => s!"failed to read recipe file {path}: {fault.message}"

def hints : Failure → List String
  | error e => e.hints
  | unreadableRecipe _ _ => []

def exitCode : Failure → Nat
  | error e => e.exitCode
  | unreadableRecipe _ _ => 1

end Failure

abbrev Run := Traced Notice Failure

/-- What a command leaves behind. -/
structure Outcome where
  notices : List Notice
  failure : Option Failure
  files : Files

namespace Outcome

def exitCode (o : Outcome) : Nat :=
  match o.failure with
  | some failure => failure.exitCode
  | none => 0

/-- What is printed. -/
def printed (o : Outcome) : String :=
  String.join (o.notices.filterMap fun
    | .printed text => some text
    | _ => none)

/-- The excerpts, a line end behind each. -/
def excerpts (o : Outcome) : String :=
  String.join (o.notices.filterMap fun
    | .excerpt text => some (text ++ "\n")
    | _ => none)

/-- The events, most of which only a user who wants to know everything is told. -/
def events (o : Outcome) : List Event :=
  o.notices.filterMap fun
    | .event e => some e
    | _ => none

end Outcome

/-- Prints a line. -/
def say (line : String) : Run Unit := Traced.tell (.printed (line ++ "\n"))

/-- Part of a command that tells what it does. -/
def perform {α : Type} (x : Traced Event Error α) : Run α := (x.mapEvents .event).mapError .error

/-- Part of a command that reads a text as a recipe. A failure at a place in the text is followed by
an excerpt of that place. -/
def withExcerpt {α : Type} (text : String) (x : Run α) : Run α :=
  match x.result with
  | .error (.error (.badRecipe e)) =>
    ⟨x.events ++ ((Text.excerpt text e.position).map Notice.excerpt).toList, x.result⟩
  | _ => x

/-- The text of a recipe. -/
def RecipeSource.load (f : Files) : RecipeSource → Run String
  | text t => return t
  | file path =>
    match f.readText path with
    | .ok t => return t
    | .error fault => Traced.fail (.unreadableRecipe path fault)

/-- The plan of a recipe. -/
def compileText (text : String) : Run Plan := withExcerpt text (perform (compile text))

def names (xs : List String) : String := ", ".intercalate xs

/-- A line of dashes. -/
def rule : String := String.ofList (List.replicate 60 '-')

/-- A statement as a row of a table. -/
def row (s : PlannedStatement) : String :=
  let actions :=
    if s.actions.isEmpty then "(unchanged)" else " -> ".intercalate (s.actions.map (·.keyword))
  s!"{padLeft 3 (toString s.index)}  {padRight 22 s.origin.text} " ++
    s!"{padRight 32 actions} {s.sink.text}"

/-- The lines that show a plan. -/
def planLines (p : Plan) : List String :=
  [s!"Recipe OK: {p.statements.length} statements", rule] ++ p.statements.map row ++
    [rule, "Stems used: " ++ names (p.requiredStems.map (·.name)), "Saved: " ++ names p.saved] ++
    (if p.deadSinks.isEmpty then [] else ["Unused sinks: " ++ names p.deadSinks])

/-- Checks a recipe and shows its plan. -/
def check (f : Files) (recipe : RecipeSource) : Run Unit := do
  let plan ← compileText (← recipe.load f)
  (planLines plan).forM say

/-- Prints the canonical text of a recipe. -/
def format (f : Files) (recipe : RecipeSource) : Run Unit := do
  let text ← recipe.load f
  let r ← withExcerpt text (perform (readRecipe text))
  Traced.tell (.printed r.text)

/-- The settings of a render: those of a file, or else the defaults, with what the options say. -/
def RenderOptions.settingsFrom (o : RenderOptions) (f : Files) : Except Error Settings := do
  let s ← match o.settings with
    | some path => Settings.load f path
    | none => pure {}
  return { s with
    bitDepth := o.bitDepth.getD s.bitDepth
    normalize := o.normalize || s.normalize }

/-- Renders a recipe from a folder of stems, of which only those that it needs are read. Gives the
report and the tree with the mix in it. -/
def renderMix (f : Files) (stamp : Stamp) (recipe : RecipeSource) (o : RenderOptions) :
    Run (Report × Files) := do
  let text ← recipe.load f
  let plan ← compileText text
  perform do
    let settings ← Traced.ofExcept (o.settingsFrom f)
    let r ← Traced.ofExcept (Renderer.new (loadStems f (some plan.requiredStems)) settings)
    Traced.tell (.rendering o.stems o.output)
    r.renderToFile f stamp text o.stems o.output

/-- The lines that tell of a render. -/
def renderLines (r : Report) : List String :=
  [s!"Rendered: {r.output}", "  Mixed: " ++ names r.saved,
   s!"  Length: {fixedFloatText 2 r.seconds}s @ {r.rate.toNat} Hz, {r.channels} channel(s)"] ++
    (if r.gain < 1 then [s!"  Normalized by {fixedFloat32Text 3 r.gain}x"] else []) ++
    [s!"  SHA-256: {r.checksum}"]

/-- The lines that show the words of recipes. -/
def actionLines : List String :=
  "Actions:" :: Action.all.map (fun a => s!"  {padRight 12 a.keyword} {a.description}") ++
    ["", "Stems: " ++ names (Stem.all.map (·.name)),
     "Sinks: <name> (temporary), save(<name>) (mixed), drop (discarded)"]

/-- The outcome of a command that writes nothing. -/
def Outcome.ofRun (f : Files) (x : Run Unit) : Outcome :=
  match x.result with
  | .ok () => ⟨x.events, none, f⟩
  | .error failure => ⟨x.events, some failure, f⟩

/-- Renders a recipe and keeps the report if that is asked for. The mix stays also if the report
cannot be kept. -/
def render (f : Files) (stamp : Stamp) (recipe : RecipeSource) (o : RenderOptions) : Outcome :=
  let mixed := renderMix f stamp recipe o
  match mixed.result with
  | .error failure => ⟨mixed.events, some failure, f⟩
  | .ok (report, written) =>
    let told := mixed.events ++ ((renderLines report).forM say).events
    match o.report with
    | none => ⟨told, none, written⟩
    | some path =>
      match report.save written path with
      | .error e => ⟨told, some (.error e), written⟩
      | .ok kept => ⟨told ++ (say s!"Report: {path}").events, none, kept⟩

/-- The outcome of a command. -/
def Command.run (f : Files) (stamp : Stamp) : Command → Outcome
  | check recipe => .ofRun f (CommandLine.check f recipe)
  | format recipe => .ofRun f (CommandLine.format f recipe)
  | render recipe options => CommandLine.render f stamp recipe options
  | actions => .ofRun f (actionLines.forM say)

end Remix.CommandLine
