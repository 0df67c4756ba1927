import Remix.Recipe.Basic

/-!
# Plans

A plan is a recipe whose names have been looked up. It says where each statement takes its track
from, and how many later statements read each sink and each stem, so that a buffer can be let go
after its last reader.
-/

namespace Remix

/-- Where a planned statement takes its track from: a stem, or the sink of an earlier statement. -/
inductive Origin where
  | stem (s : Stem)
  | sink (name : String) (statement : Nat)
  deriving DecidableEq, Repr

namespace Origin

def text : Origin → String
  | stem s => s!"{s.name} (stem)"
  | sink name statement => s!"{name} (#{statement})"

def readsSink (i : Nat) : Origin → Bool
  | stem _ => false
  | sink _ j => i = j

@[simp] theorem readsSink_stem (i : Nat) (s : Stem) : (stem s).readsSink i = false := rfl

@[simp] theorem readsSink_sink (i : Nat) (name : String) (j : Nat) :
    (sink name j).readsSink i = decide (i = j) := rfl

end Origin

/-- A statement of a plan. `readers` is the number of later statements that read its sink. -/
structure PlannedStatement where
  index : Nat
  origin : Origin
  actions : List Action
  sink : Sink
  readers : Nat
  deriving DecidableEq, Repr

namespace PlannedStatement

/-- A dead sink is neither saved nor read. -/
def isDead (s : PlannedStatement) : Bool := !s.sink.saved && s.readers = 0

end PlannedStatement

/-- Statements in order, and the number of readers of each stem that has any. -/
structure Plan where
  statements : List PlannedStatement
  stemReaders : StemMap Nat
  deriving DecidableEq, Repr

namespace Plan

/-- The names of the saved sinks, in the order of their statements. -/
def saved (p : Plan) : List String :=
  (p.statements.filter (·.sink.saved)).map (·.sink.name)

/-- The names of the dead sinks, in the order of their statements. -/
def deadSinks (p : Plan) : List String :=
  (p.statements.filter (·.isDead)).map (·.sink.name)

def requiredStems (p : Plan) : List Stem := p.stemReaders.stems

/-- The number of actions of all statements. -/
def actionCount (p : Plan) : Nat := (p.statements.flatMap (·.actions)).length

end Plan

end Remix
