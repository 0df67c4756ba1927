import Remix.Compile
import Remix.Mix
import Remix.Settings.Basic

/-!
# Rendering

A render compiles a recipe, separates a track into stems, executes the plan and mixes what is saved.
The recipe is compiled before anything is separated.
-/

namespace Remix

/-- Gets the stems of the track at a path. -/
abbrev Separator := String → Traced Event Error (StemMap Buffer)

/-- What recipes are rendered with. -/
structure Renderer where
  separator : Separator
  bank : Bank
  settings : Settings

/-- The result of a render in memory. -/
structure Rendered where
  track : Track
  stats : Stats
  statements : Nat
  deriving DecidableEq

namespace Renderer

/-- A renderer with the transforms that its settings call for. -/
def new (separator : Separator) (settings : Settings) : Except Error Renderer :=
  settings.validate.map fun s => ⟨separator, s.bank, s⟩

/-- Renders the recipe in a text from the stems of a track. -/
def render (r : Renderer) (text input : String) : Traced Event Error Rendered := do
  let plan ← compile text
  Traced.tell (.compiled plan.statements.length plan.saved)
  Traced.tell (.separating input)
  let stems ← r.separator input
  Traced.tell (.separated stems.size input)
  let output ← (execute plan stems r.bank.apply).mapError .runtime
  let track ← (mix output.saved r.settings.mixCeiling).mapError .runtime
  return ⟨track, output.stats, plan.statements.length⟩

end Renderer

end Remix
