import Remix.Error
import Remix.Wave.Reader

/-!
# Buffers from wave files

Which of the files that can be read hold a buffer: those of one or two channels with at least one
sample, whole numbers being of 8, 16, 24 or 32 bits.
-/

namespace Remix.Wave

/-- What samples of a format are called, if a buffer can hold them. -/
def Format.kind? (f : Format) : Option String :=
  match f.encoding with
  | .float => some "float"
  | .integer => if f.bits ∈ [8, 16, 24, 32] then some s!"{f.bits}-bit" else none

/-- The buffer in the bytes of the file at a path. -/
def decode (path : String) (bytes : Bytes) : Except Error Buffer := do
  let content ← (openFile bytes).mapError (.ofWaveFault s!"Failed to open WAV file {path}")
  let f := content.format
  let some layout := Layout.ofCount? f.channels
    | throw (.ofLayoutFault (.channelCount f.channels))
  let some kind := f.kind?
    | throw (.unsupportedFormat s!"{f.bits}-bit integer audio")
  let samples ← content.samples.mapError (.ofWaveFault s!"Failed to read {kind} samples")
  if samples.isEmpty then throw .emptyAudio
  (Buffer.ofInterleaved samples layout (UInt32.ofNat f.rate)).mapError .ofLayoutFault

end Remix.Wave
