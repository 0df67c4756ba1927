import Remix.Action
import Remix.Text.Position

/-!
# Syntax errors

What can be wrong with the text of a recipe, where, and how it is told.
-/

namespace Remix.Recipe

open Text (Position)

/-- What is wrong with a text that is no recipe. -/
inductive SyntaxFault where
  | emptyRecipe
  | unexpectedChar (c : Char)
  | unexpectedToken (found expected : String)
  | unexpectedEnd (expected : String)
  | missingSink
  | emptyStep
  | actionAsSink (action : Action)
  | actionAsSource (action : Action)
  | sinkMidChain (step : String)
  | emptySaveName
  deriving DecidableEq, Repr

namespace SyntaxFault

def message : SyntaxFault → String
  | emptyRecipe => "recipe contains no statements"
  | unexpectedChar c => s!"unexpected character '{c}'"
  | unexpectedToken found expected => s!"unexpected '{found}', expected {expected}"
  | unexpectedEnd expected => s!"unexpected end of recipe, expected {expected}"
  | missingSink => "statement has no sink"
  | emptyStep => "empty step between arrows"
  | actionAsSink a => s!"action '{a.keyword}' cannot end a statement, a sink is required"
  | actionAsSource a => s!"action '{a.keyword}' cannot be used as a source"
  | sinkMidChain step =>
    s!"'{step}' is not an action; a sink must be the last step of a statement"
  | emptySaveName => "save() requires a sink name"

end SyntaxFault

/-- The first fault of a text and the place where it shows. -/
structure SyntaxError where
  fault : SyntaxFault
  position : Position
  deriving DecidableEq, Repr

namespace SyntaxError

def message (e : SyntaxError) : String :=
  s!"syntax error at {e.position.describe}: {e.fault.message}"

end SyntaxError

end Remix.Recipe
