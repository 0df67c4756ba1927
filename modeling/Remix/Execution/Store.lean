import Remix.Audio.Buffer
import Remix.Event
import Remix.Plan.Basic

/-!
# The buffer store

The store holds the buffers that later statements still read: stems, and the sinks of earlier
statements. With each buffer goes the number of reads that are left. The last read takes the buffer
out. A saved sink is part of the mix in any case, so only other sinks count as released when they
go. A store is made for a number of statements, and takes sinks of further ones while there is room.
-/

namespace Remix

/-- A buffer and the number of reads left. -/
structure Slot where
  buffer : Buffer
  readers : Nat
  deriving DecidableEq

/-- The slot of a sink. -/
structure SinkSlot extends Slot where
  name : String
  saved : Bool
  deriving DecidableEq

/-- The buffers in store. A sink is found by the statement that made it. `live` is the number of
buffers put in and not yet taken out, `peak` the largest it has been. -/
structure Store where
  statements : Nat
  stems : StemMap Slot
  sinks : List (Nat × SinkSlot)
  live : Nat
  peak : Nat
  released : List String
  deriving DecidableEq

/-- What a read gives: the buffer, the store after it, and what was let go. -/
structure Reading where
  buffer : Buffer
  store : Store
  freed : Option Freed

namespace Store

def empty : Store := ⟨0, ∅, [], 0, 0, []⟩

/-- The largest number of statements for which there is room. A slot takes 72 bytes. -/
def maxStatements : Nat := maxBytes / 72

/-- The stems that are read by someone. -/
def seed (stems : StemMap Buffer) (readers : StemMap Nat) (statements : Nat) : Store :=
  let slot (s : Stem) : Option Slot :=
    match stems.get? s, readers.get? s with
    | some b, some (n + 1) => some ⟨b, n + 1⟩
    | _, _ => none
  let held := StemMap.ofFn slot
  ⟨statements, held, [], held.size, held.size, []⟩

/-- The stems that are read by someone, if there is room for the statements. -/
def seed? (stems : StemMap Buffer) (readers : StemMap Nat) (statements : Nat) : Option Store :=
  if statements ≤ maxStatements then some (seed stems readers statements) else none

/-- The sinks of all statements but one. -/
def withoutSink (sinks : List (Nat × SinkSlot)) (i : Nat) : List (Nat × SinkSlot) :=
  sinks.filter (·.1 ≠ i)

def release (store : Store) (name : String) : Store :=
  { store with released := store.released ++ [name] }

def readStem (store : Store) (s : Stem) : Option Reading :=
  (store.stems.get? s).map fun slot =>
    if slot.readers - 1 = 0 then
      ⟨slot.buffer, { store with stems := store.stems.erase s, live := store.live - 1 },
       some (.stem s)⟩
    else
      ⟨slot.buffer,
       { store with stems := store.stems.insert s { slot with readers := slot.readers - 1 } },
       none⟩

def readSink (store : Store) (i : Nat) : Option Reading :=
  (store.sinks.lookup i).map fun slot =>
    let others := withoutSink store.sinks i
    if slot.readers - 1 = 0 then
      let rest := { store with sinks := others, live := store.live - 1 }
      if slot.saved then ⟨slot.buffer, rest, some (.workingCopy slot.name)⟩
      else ⟨slot.buffer, rest.release slot.name, some (.sink slot.name)⟩
    else
      ⟨slot.buffer,
       { store with sinks := (i, { slot with readers := slot.readers - 1 }) :: others }, none⟩

/-- Reads the buffer that a statement starts from, if it is in store. -/
def read (store : Store) : Origin → Option Reading
  | .stem s => store.readStem s
  | .sink _ i => store.readSink i

/-- Whether there is room for the sink of statement `i`. One that nobody reads needs none. -/
def hasRoom (store : Store) (i readers : Nat) : Bool :=
  readers = 0 || i < max store.statements maxStatements

/-- Puts a buffer in for one or more readers. -/
def hold (store : Store) (i : Nat) (slot : SinkSlot) : Store :=
  { store with
    sinks := (i, slot) :: withoutSink store.sinks i
    live := store.live + 1
    peak := max store.peak (store.live + 1) }

/-- Puts in a sink that is not saved. One that nobody reads is released at once. -/
def insert (store : Store) (i : Nat) (name : String) (b : Buffer) (readers : Nat) : Store :=
  if readers = 0 then store.release name else store.hold i ⟨⟨b, readers⟩, name, false⟩

/-- Puts in the working copy of a saved sink, if anybody reads it. -/
def insertSaved (store : Store) (i : Nat) (name : String) (b : Buffer) (readers : Nat) : Store :=
  if readers = 0 then store else store.hold i ⟨⟨b, readers⟩, name, true⟩

end Store

end Remix
