import Remix.Transform.Basic

/-!
# Time shift

A time shift turns every channel of a buffer round by a number of samples. What leaves at one end
comes back at the other, so that no sample is lost.
-/

namespace Remix

/-- The largest number of samples by which a track can be shifted. -/
def maxShift : Nat := UInt64.size / 2 - 1

/-- A shift by `offset` samples; audio moves later if it is positive. -/
structure TimeShift where
  offset : Int
  deriving DecidableEq, Repr

/-- Moves the last `k` elements of a list to the front. -/
def rotateRight {α : Type} (k : Nat) (xs : List α) : List α :=
  xs.drop (xs.length - k) ++ xs.take (xs.length - k)

namespace TimeShift

/-- A shift to a later time, by no more than `maxShift`. -/
def late (samples : Nat) : TimeShift := ⟨min samples maxShift⟩

/-- A shift to an earlier time, by no more than `maxShift`. -/
def early (samples : Nat) : TimeShift := ⟨-min samples maxShift⟩

/-- The number of samples that come back at the front of a channel of length `n`. -/
def turn (t : TimeShift) (n : Nat) : Nat := (t.offset % n).toNat

/-- Shifts a buffer. The shift is measured on the first channel, and a shorter channel may be too
short for it. -/
def apply (t : TimeShift) (b : Buffer) : Except TransformError Buffer :=
  if b.isEmpty then .ok b
  else
    let k := t.turn b.length
    match b.channels.find? (·.length < k) with
    | some c => .error (.overturned c.length k)
    | none => .ok { b with channels := b.channels.map (rotateRight k) }

end TimeShift

end Remix
