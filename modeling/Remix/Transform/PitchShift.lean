import Remix.Number.Remainder
import Remix.Number.Text
import Remix.Transform.Basic

/-!
# Pitch shift

A pitch shift reads a channel at another speed with two heads that sweep through a window round the
place that is written. A head that leaves the window at one end comes back at the other. Each is
loudest in the middle of the window and silent at its ends, and the gains of the two add up to one.
The number of samples stays the same.
-/

namespace Remix

/-- A shift by `steps` of an octave that is divided into `stepsPerOctave`, with a window of `window`
samples. -/
structure PitchShift where
  steps : Float
  stepsPerOctave : Float
  window : Nat

namespace PitchShift

def semitones (steps : Float) (window : Nat) : PitchShift := ⟨steps, 12, window⟩

def quarterTones (steps : Float) (window : Nat) : PitchShift := ⟨steps, 24, window⟩

/-- The factor on every frequency. -/
def ratio (p : PitchShift) : Float := Float.pow 2 (p.steps / p.stepsPerOctave)

/-- Half a turn. -/
def halfTurn : Float := Float.ofBits 0x400921FB54442D18

/-- The sample at a place between two samples, on the line between them. There is silence outside
the channel. -/
def sampleAt (channel : Array Sample) (place : Float) : Float :=
  if place < 0 then 0
  else
    let i := place.floor.toUInt64
    let a := (channel[i.toNat]?.getD 0).value.toFloat
    let b := (channel[i.toNat + 1]?.getD 0).value.toFloat
    a + (b - a) * (place - i.toFloat)

/-- The gain of a head at a distance from the end of the window. -/
def gain (distance window : Float) : Float :=
  let s := (halfTurn * distance / window).sin
  s * s

/-- The sample that is written at place `n`. -/
def mixedSample (window drift : Float) (channel : Array Sample) (n : Nat) : Sample :=
  let half := window / 2
  let place := Float.ofNat n
  let first := wrap (place * drift) window
  let second := wrap (first + half) window
  .ofComputed (gain first window * sampleAt channel (place + half - first) +
    gain second window * sampleAt channel (place + half - second)).toFloat32

def shiftChannel (p : PitchShift) (channel : List Sample) : List Sample :=
  (List.range channel.length).map
    (mixedSample (Float.ofNat p.window) (1 - p.ratio) channel.toArray)

/-- The distance from 1 to the next larger number. -/
def epsilon : Float := Float.ofBits 0x3CB0000000000000

/-- Shifts a buffer. A ratio of one leaves it as it is. -/
def apply (p : PitchShift) (b : Buffer) : Except TransformError Buffer :=
  if b.rate = 0 then .error (.unsupportedRate 0)
  else if p.window < 2 then
    .error (.failed s!"pitch window of {p.window} samples is too small")
  else if (p.ratio - 1).abs < epsilon ∨ b.isEmpty then .ok b
  else .ok { b with channels := b.channels.map p.shiftChannel }

end PitchShift

end Remix
