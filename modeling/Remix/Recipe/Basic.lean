import Remix.Action
import Remix.Stem

/-!
# Recipes

A recipe is a list of statements. Each statement takes a track from a source, applies actions to it
in order and gives the result a name. `Recipe.text` writes a recipe in its canonical form, one
statement a line.
-/

namespace Remix

/-- Where a statement takes its track from. -/
inductive Source where
  | stem (s : Stem)
  | sink (name : String)
  deriving DecidableEq, Repr

namespace Source

def name : Source → String
  | stem s => s.name
  | sink n => n

end Source

/-- The name that a statement gives to its result. A saved sink is part of the mix, any other is
only there for later statements to read. -/
structure Sink where
  name : String
  saved : Bool
  deriving DecidableEq, Repr

namespace Sink

def text (s : Sink) : String := if s.saved then s!"save({s.name})" else s.name

end Sink

structure Statement where
  source : Source
  actions : List Action
  sink : Sink
  deriving DecidableEq, Repr

namespace Statement

def text (s : Statement) : String :=
  s.source.name ++ String.join (s.actions.map fun a => " -> " ++ a.keyword) ++
    " -> " ++ s.sink.text ++ ";"

end Statement

structure Recipe where
  statements : List Statement
  deriving DecidableEq, Repr

namespace Recipe

/-- The canonical form of a recipe: each statement on a line of its own. -/
def text (r : Recipe) : String := String.join (r.statements.map fun s => s.text ++ "\n")

end Recipe

end Remix
