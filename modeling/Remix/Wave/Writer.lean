import Remix.Audio.Buffer
import Remix.Wave.Format

/-!
# Writing wave files

A file has a chunk with the format and one with the samples, and nothing else. Whole numbers of at
most 16 bits on at most two channels have the short form of the format; any other format has the
long form, which names the encoding by its identifier.
-/

namespace Remix.Wave

/-- How exact the samples of a file are. -/
inductive Depth where
  | sixteen
  | twentyFour
  | float
  deriving DecidableEq, Repr

namespace Depth

def bits : Depth → Nat
  | sixteen => 16
  | twentyFour => 24
  | float => 32

def ofBits? : Nat → Option Depth
  | 16 => some sixteen
  | 24 => some twentyFour
  | 32 => some float
  | _ => none

def encoding : Depth → Encoding
  | sixteen | twentyFour => .integer
  | float => .float

/-- The bytes of one sample. -/
def width (d : Depth) : Nat := d.bits / 8

end Depth

/-- Why a buffer cannot be written. -/
inductive Unwritable where
  | noRate
  | noChannels
  | byteRateTooLarge
  | shortChannel
  | tooLong
  | partialFrame
  deriving DecidableEq, Repr

def Unwritable.message : Unwritable → String
  | noRate => "the sample rate is 0"
  | noChannels => "there are no channels"
  | byteRateTooLarge => "a second of samples has too many bytes"
  | shortChannel => "a channel is shorter than the first"
  | tooLong => "the file has too many bytes"
  | partialFrame => "The number of samples written is not a multiple of the number of channels."

/-- A number without its fraction, if it has at most 32 digits before the point. What is no number
becomes 0. -/
def wholePart (x : Float32) : Int :=
  if x < 0 then -((-x).toUInt32.toNat : Int) else (x.toUInt32.toNat : Int)

/-- A sample as a whole number of `bits` bits: full scale is the largest number, fractions are
dropped, and what is beyond the numbers of so many bits is cut off. What is no number becomes 0. -/
def quantize (bits : Nat) (x : Float32) : Int :=
  let half : Nat := Nat.pow 2 (bits - 1)
  max (-(half : Int)) (min (half - 1) (wholePart (x * Float32.ofNat (half - 1))))

/-- The bytes of a sample. -/
def Depth.sampleBytes (d : Depth) (s : Sample) : Bytes :=
  match d with
  | sixteen => signedBytes 2 (quantize 16 s.value)
  | twentyFour => signedBytes 3 (quantize 24 s.value)
  | float => toBytes 4 s.bits.toNat

/-- The format of a buffer written at a depth. A file counts its channels in two bytes. -/
def Depth.format (d : Depth) (b : Buffer) : Format where
  channels := b.channels.length % UInt16.size
  rate := b.rate.toNat
  container := d.width
  bits := d.bits
  encoding := d.encoding

namespace Format

/-- The number of bytes of a second of samples. -/
def byteRate (f : Format) : Nat := f.rate * f.container * f.channels

/-- The loudspeakers of the channels, one bit each, of which there are eighteen at most. -/
def speakers (f : Format) : Nat := Nat.pow 2 (min f.channels 18) - 1

/-- The fields that every form of the format has after its code. -/
def commonFields (f : Format) : Bytes :=
  toBytes 2 f.channels ++ toBytes 4 f.rate ++ toBytes 4 f.byteRate ++
    toBytes 2 (f.byteRate / f.rate) ++ toBytes 2 f.bits

/-- The chunk of a format, with its tag and its length. -/
def chunk (f : Format) : Bytes :=
  if f.bits ≤ 16 ∧ f.channels ≤ 2 then
    formatTag ++ toBytes 4 16 ++ toBytes 2 integerCode ++ f.commonFields
  else
    formatTag ++ toBytes 4 40 ++ toBytes 2 extensibleCode ++ f.commonFields ++ toBytes 2 22 ++
      toBytes 2 f.bits ++ toBytes 4 f.speakers ++ f.encoding.identifier

end Format

/-- A file of a format with the bytes of its samples. -/
def fileOf (f : Format) (samples : Bytes) : Bytes :=
  let body := waveTag ++ f.chunk ++ dataTag ++ toBytes 4 samples.length ++ samples
  riffTag ++ toBytes 4 body.length ++ body

/-- The file that a buffer is written to. Its header has four bytes for the byte rate, and four for
the number of the bytes behind the first eight. -/
def encode (d : Depth) (b : Buffer) : Except Unwritable Bytes :=
  let f := d.format b
  if f.rate = 0 then .error .noRate
  else if f.channels = 0 then .error .noChannels
  else if UInt32.size ≤ f.byteRate then .error .byteRateTooLarge
  else
    match b.interleaved? with
    | none => .error .shortChannel
    | some samples =>
      let file := fileOf f (samples.flatMap d.sampleBytes)
      if UInt32.size + 8 ≤ file.length then .error .tooLong
      else if samples.length % f.channels = 0 then .ok file
      else .error .partialFrame

end Remix.Wave
