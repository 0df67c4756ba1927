import Remix.Event
import Remix.Plan.NamingError
import Remix.Traced

/-!
# Planning a recipe

Statements are looked at in order, so that a sink can be read by later statements only. The name of
a stem always means the stem; a sink may carry it only if it is made from that very stem. Readers
are counted on the way: each statement adds one to the count of the stem or the earlier sink that it
reads.
-/

namespace Remix

/-- The names of the sinks so far, the newest first, with the statements that define them. -/
abbrev Scope := List (String × Nat)

namespace Scope

/-- What the source of statement `i` refers to. -/
def find (scope : Scope) (i : Nat) : Source → Except NamingError Origin
  | .stem s => .ok (.stem s)
  | .sink name =>
    match Stem.ofName? name, scope.lookup name with
    | none, some j => .ok (.sink name j)
    | _, _ => .error (.unknownReference name i)

/-- The scope after statement `i`, which gives the name `name` to something made from `source`. -/
def define (scope : Scope) (i : Nat) (source : Source) (name : String) :
    Except NamingError Scope :=
  match Stem.ofName? name with
  | some s => if source = .stem s then add else .error (.reservedName name i)
  | none => add
where
  add : Except NamingError Scope :=
    match scope.lookup name with
    | some j => .error (.duplicateName name i j)
    | none => .ok ((name, i) :: scope)

end Scope

namespace Plan

def empty : Plan := ⟨[], ∅⟩

/-- The plan with one more reader of an origin. -/
def countReader (p : Plan) : Origin → Plan
  | .stem s =>
    { p with stemReaders := p.stemReaders.insert s ((p.stemReaders.get? s).getD 0 + 1) }
  | .sink _ i =>
    { p with statements := p.statements.modify i fun q => { q with readers := q.readers + 1 } }

/-- The plan with a further statement, which reads `origin` and is not read yet. -/
def addStatement (p : Plan) (origin : Origin) (s : Statement) : Plan :=
  let counted := p.countReader origin
  { counted with
    statements := counted.statements ++ [⟨p.statements.length, origin, s.actions, s.sink, 0⟩] }

/-- Plans the statements that follow on those of a plan. -/
def extend (scope : Scope) (p : Plan) : List Statement → Traced Event NamingError Plan
  | [] => pure p
  | s :: rest => do
    let i := p.statements.length
    let origin ← Traced.ofExcept (scope.find i s.source)
    let scope ← Traced.ofExcept (scope.define i s.source s.sink.name)
    Traced.tell (.planned i origin s.sink)
    extend scope (p.addStatement origin s) rest

/-- Plans a recipe and warns of its dead sinks. -/
def build (r : Recipe) : Traced Event NamingError Plan := do
  let plan ← extend [] empty r.statements
  if plan.saved.isEmpty then Traced.fail .emptyOutput
  Traced.tellAll (plan.deadSinks.map .deadSink)
  return plan

/-- The plan of a recipe. -/
def ofRecipe (r : Recipe) : Except NamingError Plan := (build r).result

end Plan

end Remix
