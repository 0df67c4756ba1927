import Remix.Execution.RuntimeError
import Remix.Execution.Store
import Remix.Traced

/-!
# Executing a plan

Statements run in order. Each reads its buffer from the store and applies its actions from left to
right; after every action the sample rate, the layout and the samples of the buffer are checked.
The saved sinks are the output.
-/

namespace Remix

/-- A buffer with the name of the sink that it is the result of. -/
structure NamedBuffer where
  name : String
  buffer : Buffer
  deriving DecidableEq

/-- Figures of an execution. `released` lists the sinks that were not saved, in the order in which
they were let go. -/
structure Stats where
  statementsRun : Nat
  actionsApplied : Nat
  peakLive : Nat
  released : List String
  deriving DecidableEq, Repr

/-- The saved sinks, in the order of their statements. -/
structure Output where
  saved : List NamedBuffer
  stats : Stats
  deriving DecidableEq

namespace Execution

/-- The buffer that a statement wants to read is not in store. -/
def missing (s : PlannedStatement) : RuntimeError :=
  match s.origin with
  | .stem stem => .missingStem stem s.index
  | .sink name _ => .missingSink name s.index

/-- What is wrong with the result of an action on a buffer of a given rate, if anything. -/
def faultAfter (i : Nat) (a : Action) (rate : UInt32) (b : Buffer) : Option RuntimeError :=
  if b.rate ≠ rate then
    some (.incompatibleRate s!"statement {i} after '{a.keyword}'" rate b.rate)
  else
    match b.layoutFault? with
    | some fault => some (.transformFailed i a (.badLayout fault.message))
    | none => if b.isFinite then none else some (.transformFailed i a .notFinite)

/-- Applies one action of statement `i`. -/
def applyAction (transforms : Transforms) (i : Nat) (rate : UInt32) (a : Action) (b : Buffer) :
    Except RuntimeError Buffer := do
  let result ← (transforms a b).mapError (.transformFailed i a)
  match faultAfter i a rate result with
  | some e => .error e
  | none => .ok result

/-- Applies the actions of statement `i` from left to right. -/
def applyActions (transforms : Transforms) (i : Nat) (rate : UInt32) :
    List Action → Buffer → Traced Event RuntimeError Buffer
  | [], b => pure b
  | a :: rest, b => do
    Traced.tell (.applying i a b)
    let b ← Traced.ofExcept (applyAction transforms i rate a b)
    applyActions transforms i rate rest b

/-- An execution between two statements. -/
structure Progress where
  store : Store
  saved : List NamedBuffer
  statementsRun : Nat
  actionsApplied : Nat
  deriving DecidableEq

namespace Progress

def start (stems : StemMap Buffer) (readers : StemMap Nat) (statements : Nat) : Progress :=
  ⟨.seed stems readers statements, [], 0, 0⟩

/-- Keeps the result of a statement. -/
def keep (p : Progress) (s : PlannedStatement) (b : Buffer) : Progress :=
  let run := p.statementsRun + 1
  let applied := p.actionsApplied + s.actions.length
  if s.sink.saved then
    ⟨p.store.insertSaved s.index s.sink.name b s.readers, p.saved ++ [⟨s.sink.name, b⟩], run,
     applied⟩
  else ⟨p.store.insert s.index s.sink.name b s.readers, p.saved, run, applied⟩

def stats (p : Progress) : Stats :=
  ⟨p.statementsRun, p.actionsApplied, p.store.peak, p.store.released⟩

end Progress

/-- Runs one statement. -/
def runStatement (transforms : Transforms) (p : Progress) (s : PlannedStatement) :
    Traced Event RuntimeError Progress := do
  match p.store.read s.origin with
  | none => Traced.fail (missing s)
  | some reading =>
    Traced.tellAll (reading.freed.toList.map .freed)
    let b ← applyActions transforms s.index reading.buffer.rate s.actions reading.buffer
    if reading.store.hasRoom s.index s.readers then
      if s.isDead then Traced.tell (.freed (.sink s.sink.name))
      return { p with store := reading.store }.keep s b
    else Traced.fail (.noRoom s.index)

/-- Runs statements in order. -/
def runFrom (transforms : Transforms) (p : Progress) :
    List PlannedStatement → Traced Event RuntimeError Progress
  | [] => pure p
  | s :: rest => do
    let p ← runStatement transforms p s
    runFrom transforms p rest

/-- The stems that nobody reads. -/
def unread (stems : StemMap Buffer) (readers : StemMap Nat) : List Stem :=
  stems.stems.filter fun s => (readers.get? s).getD 0 = 0

end Execution

open Execution in
/-- Executes a plan on separated stems. -/
def execute (plan : Plan) (stems : StemMap Buffer) (transforms : Transforms) :
    Traced Event RuntimeError Output := do
  Traced.tell (.executing plan.statements.length plan.actionCount)
  Traced.tellAll ((unread stems plan.stemReaders).map .stemUnread)
  let p ← runFrom transforms (.start stems plan.stemReaders plan.statements.length)
    plan.statements
  Traced.tell (.executed p.statementsRun p.saved.length)
  return ⟨p.saved, p.stats⟩

end Remix
