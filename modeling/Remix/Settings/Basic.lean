import Remix.Error
import Remix.Number.Text
import Remix.Transform.Bank

/-!
# Render settings

The settings of a render, their defaults, and what they have to satisfy.
-/

namespace Remix

/-- The shortest window of a pitch shift, in samples. -/
def minPitchWindow : Nat := 64

/-- Settings of a render. `timeShift` and `pitchWindow` count samples; `bitDepth` is that of the
output file. -/
structure Settings where
  timeShift : Nat := 1500
  pitchWindow : Nat := 2048
  normalize : Bool := false
  ceiling : Float32 := 1
  bitDepth : UInt16 := 24
  deriving DecidableEq

namespace Settings

/-- The first requirement that settings fail, if they fail any. -/
def fault? (s : Settings) : Option String :=
  if maxShift < s.timeShift then
    some s!"time_shift_samples must be at most {maxShift}, got {s.timeShift}"
  else if s.pitchWindow < minPitchWindow then
    some s!"pitch_window must be at least {minPitchWindow} samples, got {s.pitchWindow}"
  else if ¬(0 < s.ceiling ∧ s.ceiling ≤ 1) then
    some s!"normalize_ceiling must be in (0, 1], got {float32Text s.ceiling}"
  else if s.bitDepth ≠ 16 ∧ s.bitDepth ≠ 24 ∧ s.bitDepth ≠ 32 then
    some s!"bit_depth must be 16, 24 or 32, got {s.bitDepth.toNat}"
  else none

/-- The settings, if they satisfy every requirement. -/
def validate (s : Settings) : Except Error Settings :=
  match s.fault? with
  | some reason => .error (.badSettings reason)
  | none => .ok s

/-- The transforms that the settings call for. -/
def bank (s : Settings) : Bank := .standard s.timeShift s.pitchWindow

/-- The ceiling of the mix, if it is to be held. -/
def mixCeiling (s : Settings) : Option Float32 := if s.normalize then some s.ceiling else none

end Settings

end Remix
