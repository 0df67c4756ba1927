import Remix.Bytes

/-!
# Formats of wave files

What a wave file says about its samples, the tags that mark its parts, and what can be wrong with
a file.
-/

namespace Remix.Wave

/-- Whether samples are whole numbers or floating-point numbers. -/
inductive Encoding where
  | integer
  | float
  deriving DecidableEq, Repr

/-- How the samples of a file are written. Each takes `container` bytes, of which `bits` bits
matter. -/
structure Format where
  channels : Nat
  rate : Nat
  container : Nat
  bits : Nat
  encoding : Encoding
  deriving DecidableEq, Repr

/-! The tags of the file and of its chunks. -/

def riffTag : Bytes := [0x52, 0x49, 0x46, 0x46]

def waveTag : Bytes := [0x57, 0x41, 0x56, 0x45]

def formatTag : Bytes := [0x66, 0x6d, 0x74, 0x20]

def factTag : Bytes := [0x66, 0x61, 0x63, 0x74]

def dataTag : Bytes := [0x64, 0x61, 0x74, 0x61]

/-- The format code of whole numbers. -/
def integerCode : Nat := 1

/-- The format code of floating-point numbers. -/
def floatCode : Nat := 3

/-- The format code of a file that names its encoding by an identifier of sixteen bytes. -/
def extensibleCode : Nat := 0xFFFE

/-- The identifier of an encoding: its format code and what follows it in every identifier. -/
def Encoding.identifier (e : Encoding) : Bytes :=
  let code := match e with
    | .integer => integerCode
    | .float => floatCode
  toBytes 4 code ++
    [0x00, 0x00, 0x10, 0x00, 0x80, 0x00, 0x00, 0xaa, 0x00, 0x38, 0x9b, 0x71]

def Encoding.ofIdentifier? (identifier : Bytes) : Option Encoding :=
  if identifier = Encoding.integer.identifier then some .integer
  else if identifier = Encoding.float.identifier then some .float
  else none

/-- What the header of a file may contradict. -/
inductive Flaw where
  | noRiffTag
  | noWaveTag
  | missingFormat
  | formatTooShort
  | noChannels
  | bitsExceedContainer
  | inconsistentByteRate
  | partialByte
  | noBits
  | formatLength
  | integerBits
  | floatExtension
  | floatBits
  | extensionLength
  | partialSample
  | partialFrame
  deriving DecidableEq, Repr

def Flaw.message : Flaw → String
  | noRiffTag => "no RIFF tag found"
  | noWaveTag => "no WAVE tag found"
  | missingFormat => "missing fmt chunk"
  | formatTooShort => "invalid fmt chunk size"
  | noChannels => "file contains zero channels"
  | bitsExceedContainer => "sample bits exceeds size of sample"
  | inconsistentByteRate => "inconsistent fmt chunk"
  | partialByte => "bits per sample is not a multiple of 8"
  | noBits => "bits per sample is 0"
  | formatLength => "unexpected fmt chunk size"
  | integerBits => "bits per sample is not 8 or 16"
  | floatExtension => "unexpected WAVEFORMATEX size"
  | floatBits => "bits per sample is not 32"
  | extensionLength => "unexpected WAVEFORMATEXTENSIBLE size"
  | partialSample => "data chunk length is not a multiple of sample size"
  | partialFrame => "invalid data chunk length"

/-- Why a file cannot be read. -/
inductive Fault where
  | endOfFile
  | unsupported
  | tooWide
  | illFormed (flaw : Flaw)
  deriving DecidableEq, Repr

def Fault.message : Fault → String
  | endOfFile => "Failed to read enough bytes."
  | unsupported => "The wave format of the file is not supported."
  | tooWide => "The sample has more bits than the destination type."
  | illFormed flaw => s!"Ill-formed WAVE file: {flaw.message}"

end Remix.Wave
