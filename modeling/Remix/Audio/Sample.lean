/-!
# Samples

A sample is a number of single precision, kept as its bits. So a sample that is no number keeps its
sign and its payload on the way from one file to another. Sums and products are those of the
numbers; what is no number passes through them.
-/

namespace Remix

/-- One value of a channel, by the bits of a number of single precision. -/
structure Sample where
  bits : UInt32
  deriving DecidableEq, Repr

namespace Sample

/-- Silence. -/
instance : OfNat Sample 0 := ⟨⟨0⟩⟩

/-- The number that a sample stands for. -/
def value (s : Sample) : Float32 := Float32.ofBits s.bits

/-- Whether a sample is no number. -/
def isNaN (s : Sample) : Bool := 0x7F800000 < s.bits &&& 0x7FFFFFFF

/-- Whether a sample is a number and not infinite. -/
def isFinite (s : Sample) : Bool := s.bits &&& 0x7F800000 ≠ 0x7F800000

/-- The sample for a number that has been computed. What is no number gets a minus and no
payload. -/
def ofComputed (x : Float32) : Sample := ⟨if x.isNaN then 0xFFC00000 else x.toBits⟩

/-- A sample that is no number, with the mark of one that has passed through a computation. -/
def quiet (s : Sample) : Sample := ⟨s.bits ||| 0x00400000⟩

/-- Computes with the numbers of two samples. If one is no number it passes through, the second
rather than the first. -/
def combine (f : Float32 → Float32 → Float32) (a b : Sample) : Sample :=
  if b.isNaN then b.quiet
  else if a.isNaN then a.quiet
  else ofComputed (f a.value b.value)

instance : Add Sample := ⟨combine (· + ·)⟩

instance : Mul Sample := ⟨combine (· * ·)⟩

end Sample

end Remix
