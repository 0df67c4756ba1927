import Remix.Audio.Level
import Remix.Execution.Run

/-!
# Mixing

The mix is the sum of buffers, sample by sample, in the order in which they are given. It is as long
as the longest channel and has as many channels as the widest buffer. If its peak exceeds a ceiling,
the whole mix is scaled down to it.
-/

namespace Remix

/-- A mix, the names of what went into it, and the gain that was applied to it. -/
structure Track where
  buffer : Buffer
  sources : List String
  gain : Float32
  deriving DecidableEq

namespace Mix

/-- The length of the longest channel. -/
def longest (inputs : List NamedBuffer) : Nat :=
  (inputs.flatMap fun x => x.buffer.channels.map (·.length)).foldl max 0

/-- The largest number of channels. -/
def widest (inputs : List NamedBuffer) : Nat :=
  (inputs.map (·.buffer.channels.length)).foldl max 0

/-- A buffer brought to the width and length of the mix. -/
def fit (length channels : Nat) (b : Buffer) : Buffer :=
  (if b.channels.length < channels then b.toStereo else b).padTo length

/-- Adds a channel to another one, as far as both go; what is left of the first stays. -/
def addChannel (sum channel : List Sample) : List Sample :=
  List.zipWith (· + ·) sum channel ++ sum.drop channel.length

/-- Adds channels to other ones, as far as both go; what is left of the first stays. -/
def addChannels (sum channels : List (List Sample)) : List (List Sample) :=
  List.zipWith addChannel sum channels ++ sum.drop channels.length

/-- The sum of buffers, from silence. -/
def sum (inputs : List NamedBuffer) (length channels : Nat) : List (List Sample) :=
  inputs.foldl (fun acc x => addChannels acc (fit length channels x.buffer).channels)
    (List.replicate channels (List.replicate length 0))

/-- Scales a mix down to a ceiling, or warns of a mix that is too loud if there is none. -/
def level (ceiling : Option Float32) (b : Buffer) : Traced Event RuntimeError (Buffer × Float32) :=
  let peak := b.peak
  match ceiling with
  | some c =>
    if c < peak then do
      Traced.tell (.normalized (c / peak))
      return (b.scale (c / peak), c / peak)
    else return (b, 1)
  | none => do
    if 1 < peak then Traced.tell (.clipping peak)
    return (b, 1)

end Mix

open Mix in
/-- Mixes buffers into a track. -/
def mix (inputs : List NamedBuffer) (ceiling : Option Float32) :
    Traced Event RuntimeError Track := do
  match inputs with
  | [] => Traced.fail .nothingToMix
  | first :: _ =>
    let rate := first.buffer.rate
    match inputs.find? (·.buffer.rate ≠ rate) with
    | some other =>
      Traced.fail (.incompatibleRate s!"mix of '{first.name}' and '{other.name}'" rate
        other.buffer.rate)
    | none =>
      let length := longest inputs
      let channels := widest inputs
      Traced.tell (.mixing inputs.length length channels)
      let (buffer, gain) ← level ceiling ⟨sum inputs length channels, rate⟩
      return ⟨buffer, inputs.map (·.name), gain⟩

end Remix
