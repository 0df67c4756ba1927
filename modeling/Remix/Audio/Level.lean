import Remix.Audio.Buffer

/-!
# Levels

How loud a buffer is: its largest sample, and its level in decibels relative to full scale.
-/

namespace Remix

/-- A linear level in decibels. Nothing, and less, is infinitely quiet. -/
def decibels (level : Float32) : Float32 :=
  if level ≤ 0 then Float32.ofBits 0xFF800000 else 20 * level.log10

namespace Buffer

/-- The larger of a level and the size of a sample. A sample that is no number has no size. -/
def louder (level : Float32) (s : Sample) : Float32 :=
  if level < s.value.abs then s.value.abs else level

/-- The size of the largest sample. -/
def peak (b : Buffer) : Float32 := b.channels.flatten.foldl louder 0

def peakDecibels (b : Buffer) : Float32 := decibels b.peak

/-- The level of the root of the mean square, for a buffer whose channels are as long as the
first. -/
def rmsDecibels (b : Buffer) : Float32 :=
  let total := b.channels.length * b.length
  if total = 0 then decibels 0
  else
    let squares := b.channels.flatten.foldl (fun sum s => sum + s.value.toFloat * s.value.toFloat) 0
    decibels (squares / Float.ofNat total).sqrt.toFloat32

end Buffer

end Remix
