import Remix.Json.Flat
import Remix.Settings.Basic

/-!
# Settings in JSON

Settings are written as an object that names some of them, each once, or as an array of values in
the order of the fields, of which the last ones may be missing. What is not given keeps its default.
-/

namespace Remix.Settings

open Json (Scalar)

/-- The names of the settings in the order of the fields. -/
def names : List String :=
  ["time_shift_samples", "pitch_window", "normalize", "normalize_ceiling", "bit_depth"]

/-- The largest number that counts samples. -/
def maxCount : Nat := UInt64.size - 1

/-- The settings with the one that has a name changed to a value of its kind. -/
def set? (s : Settings) (name : String) (value : Scalar) : Option Settings :=
  match value with
  | .number n =>
    if name = "time_shift_samples" then
      (n.natural? maxCount).map fun v => { s with timeShift := v }
    else if name = "pitch_window" then
      (n.natural? maxCount).map fun v => { s with pitchWindow := v }
    else if name = "normalize_ceiling" then some { s with ceiling := n.toFloat32 }
    else if name = "bit_depth" then
      (n.natural? (UInt16.size - 1)).map fun v => { s with bitDepth := UInt16.ofNat v }
    else none
  | .truth b => if name = "normalize" then some { s with normalize := b } else none
  | _ => none

/-- The settings that differ from the defaults in the given members. -/
def ofMembers? (members : List (String × Scalar)) : Option Settings :=
  if (members.map (·.1)).Nodup then
    members.foldlM (fun s (name, value) => s.set? name value) {}
  else none

/-- The settings that a text holds. -/
def ofText? (text : String) : Option Settings := do
  let tokens ← Json.tokens text
  match Json.members? tokens with
  | some members => ofMembers? members
  | none =>
    let elements ← Json.elements? tokens
    guard (elements.length ≤ names.length)
    ofMembers? (names.zip elements)

end Remix.Settings
