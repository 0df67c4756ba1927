import Remix.Audio.Sample
import Remix.Bytes

/-!
# Audio buffers

A buffer holds a track as one list of samples for each channel, with its sample rate. Buffers may be
built from any channels; those with one or two channels of equal length are the well laid-out ones,
and `Buffer.layoutFault?` tells what is wrong with any other. Interleaving turns a buffer into the
single list of samples that audio files hold, and `Buffer.ofInterleaved` takes it apart again.
-/

namespace Remix

/-- The number of channels of a well laid-out buffer. -/
inductive Layout where
  | mono
  | stereo
  deriving DecidableEq, Repr

namespace Layout

def channelCount : Layout → Nat
  | mono => 1
  | stereo => 2

def ofCount? : Nat → Option Layout
  | 1 => some mono
  | 2 => some stereo
  | _ => none

@[simp] theorem ofCount?_channelCount (l : Layout) : ofCount? l.channelCount = some l := by
  cases l <;> rfl

theorem ofCount?_eq_some_iff {n : Nat} {l : Layout} :
    ofCount? n = some l ↔ n = l.channelCount := by
  constructor
  · intro h
    unfold ofCount? at h
    split at h <;> cases h <;> rfl
  · rintro rfl
    exact ofCount?_channelCount l

end Layout

/-- What keeps samples from forming a well laid-out buffer. -/
inductive LayoutFault where
  | channelCount (count : Nat)
  | unequalLengths
  | incompleteFrame (length channels : Nat)
  deriving DecidableEq, Repr

namespace LayoutFault

def message : LayoutFault → String
  | channelCount n => s!"{n}-channel audio (only mono/stereo supported)"
  | unequalLengths => "channels have different lengths"
  | incompleteFrame length channels =>
    s!"Interleaved data length {length} is not divisible by channel count {channels}"

end LayoutFault

/-- Samples by channel, at `rate` samples a second. -/
structure Buffer where
  channels : List (List Sample)
  rate : UInt32
  deriving DecidableEq

/-- The sample rate of a buffer for which none is given. -/
def defaultRate : UInt32 := 44100

namespace Buffer

/-- The largest number of samples that a channel has room for. A sample takes four bytes. -/
def maxLength : Nat := maxBytes / 4

/-- A buffer of silence. -/
def silent (length : Nat) (layout : Layout) (rate : UInt32) : Buffer :=
  ⟨List.replicate layout.channelCount (List.replicate length 0), rate⟩

/-- A buffer of silence, if there is room for it. -/
def silent? (length : Nat) (layout : Layout) (rate : UInt32) : Option Buffer :=
  if length ≤ maxLength then some (silent length layout rate) else none

/-- The buffer without samples. -/
def empty : Buffer := silent 0 .stereo defaultRate

/-- The number of samples of the first channel. -/
def length (b : Buffer) : Nat :=
  match b.channels with
  | [] => 0
  | c :: _ => c.length

def isEmpty (b : Buffer) : Bool := b.length = 0

def layout? (b : Buffer) : Option Layout := Layout.ofCount? b.channels.length

/-- What is wrong with the channels of a buffer, if anything. -/
def layoutFault? (b : Buffer) : Option LayoutFault :=
  if b.layout?.isNone then some (.channelCount b.channels.length)
  else if b.channels.all (·.length = b.length) then none
  else some .unequalLengths

/-- A buffer with the given channels, if they are one or two of equal length. -/
def ofChannels (channels : List (List Sample)) (rate : UInt32) : Except LayoutFault Buffer :=
  match Layout.ofCount? channels.length, channels with
  | some _, first :: _ =>
    if channels.any (·.length ≠ first.length) then .error .unequalLengths
    else .ok ⟨channels, rate⟩
  | _, _ => .error (.channelCount channels.length)

/-- Deals a list out in turn, beginning with the first of two hands. -/
def deal {α : Type} (xs : List α) : List α × List α :=
  xs.foldr (fun x (a, b) => (x :: b, a)) ([], [])

/-- A buffer from samples that take turns between the channels. -/
def ofInterleaved (samples : List Sample) (layout : Layout) (rate : UInt32) :
    Except LayoutFault Buffer :=
  match layout with
  | .mono => .ok ⟨[samples], rate⟩
  | .stereo =>
    if samples.length % 2 = 0 then
      let (left, right) := deal samples
      .ok ⟨[left, right], rate⟩
    else .error (.incompleteFrame samples.length 2)

/-- The first `n` frames of some channels: at each moment the samples of all channels, in channel
order. There are fewer if a channel is shorter. -/
def frames {α : Type} (n : Nat) (channels : List (List α)) : List (List α) :=
  channels.foldr (List.zipWith (· :: ·)) (List.replicate n [])

/-- The samples of a buffer, channels taking turns. There are none for a buffer that has a channel
shorter than the first. -/
def interleaved? (b : Buffer) : Option (List Sample) :=
  if b.channels.all (b.length ≤ ·.length) then some (frames b.length b.channels).flatten else none

/-- The time that a buffer takes, in seconds. -/
def seconds (b : Buffer) : Float :=
  if b.rate = 0 then 0 else Float.ofNat b.length / b.rate.toFloat

/-- Whether every sample is a number and not infinite. -/
def isFinite (b : Buffer) : Bool := b.channels.all fun c => c.all (·.isFinite)

/-- Extends every channel that is shorter than `n` with silence. -/
def padTo (n : Nat) (b : Buffer) : Buffer :=
  { b with channels := b.channels.map fun c => c ++ List.replicate (n - c.length) 0 }

/-- Extends every channel that is shorter than `n` with silence, if there is room for it. -/
def padTo? (n : Nat) (b : Buffer) : Option Buffer :=
  if n ≤ maxLength ∨ b.channels.isEmpty then some (b.padTo n) else none

/-- Doubles the channel of a buffer that has only one. -/
def toStereo (b : Buffer) : Buffer :=
  match b.channels with
  | [c] => { b with channels := [c, c] }
  | _ => b

/-- Multiplies every sample by `gain`. -/
def scale (gain : Float32) (b : Buffer) : Buffer :=
  { b with channels := b.channels.map fun c => c.map (· * .ofComputed gain) }

end Buffer

end Remix
