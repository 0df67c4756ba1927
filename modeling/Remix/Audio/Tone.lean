import Remix.Audio.Buffer

/-!
# Test tones

A sine wave on one channel, to try recipes without recorded stems.
-/

namespace Remix.Buffer

/-- Half a turn. -/
def halfTurn : Float32 := Float32.ofBits 0x40490FDB

/-- A sine wave that begins at zero, if there is room for it. A time that is negative or no number
gives no samples. -/
def tone? (frequency seconds : Float32) (rate : UInt32) : Option Buffer :=
  let count := (seconds * rate.toFloat32).toUInt64.toNat
  let step := 2 * halfTurn * frequency / rate.toFloat32
  if count ≤ maxLength then
    some ⟨[(List.range count).map fun i => .ofComputed (step * Float32.ofNat i).sin], rate⟩
  else none

end Remix.Buffer
