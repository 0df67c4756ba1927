import Remix.Audio.Buffer
import Remix.Wave.Format

/-!
# Reading wave files

A wave file is a list of chunks. `openFile` finds the last format before the samples and checks
what they say of each other; `Content.samples` decodes the samples. Nothing is asked of what
follows the samples.
-/

namespace Remix.Wave

/-- `width` bytes from an offset on. -/
def field (bytes : Bytes) (offset width : Nat) : Except Fault Bytes :=
  let piece := (bytes.drop offset).take width
  if piece.length = width then .ok piece else .error .endOfFile

/-- The number in `width` bytes from an offset on. -/
def number (bytes : Bytes) (offset width : Nat) : Except Fault Nat :=
  (field bytes offset width).map ofBytes

def require (holds : Bool) (flaw : Flaw) : Except Fault Unit :=
  if holds then .ok () else .error (.illFormed flaw)

/-- The format of a chunk with a code and a length, and the number of bytes that the format takes.
Of the format it is known what is said before its encoding. -/
def readForm (length code : Nat) (common : Encoding → Format) (bytes : Bytes) :
    Except Fault (Format × Nat) := do
  if code = integerCode then
    require (length = 16 ∨ length = 18 ∨ length = 40) .formatLength
    let f := common .integer
    if length ≠ 16 then
      let _ ← field bytes 16 2
      require (f.bits = 8 ∨ f.bits = 16 ∨ f.bits = 24) .integerBits
    let _ ← field bytes 16 (length - 16)
    return (f, length)
  else if code = floatCode then
    require (length = 16 ∨ length = 18) .formatLength
    let f := common .float
    if length = 18 then
      let extension ← number bytes 16 2
      require (extension = 0) .floatExtension
    require (f.bits = 32) .floatBits
    return (f, length)
  else if code = extensibleCode then
    require (40 ≤ length) .formatLength
    let extension ← number bytes 16 2
    require (extension = 22) .extensionLength
    let validBits ← number bytes 18 2
    let identifier ← field bytes 24 16
    match Encoding.ofIdentifier? identifier with
    | none => throw .unsupported
    | some encoding =>
      let f := common encoding
      return ({ f with bits := if 0 < validBits then validBits else f.bits }, 40)
  else throw .unsupported

/-- The format in a chunk that says it is `length` bytes long, and the number of bytes that the
format takes. These are the bytes that are skipped, also in a chunk that is longer. -/
def readFormat (length : Nat) (bytes : Bytes) : Except Fault (Format × Nat) := do
  require (16 ≤ length) .formatTooShort
  let code ← number bytes 0 2
  let channels ← number bytes 2 2
  let rate ← number bytes 4 4
  let byteRate ← number bytes 8 4
  let align ← number bytes 12 2
  let bits ← number bytes 14 2
  require (channels ≠ 0) .noChannels
  let container := align / channels
  require (8 * container < UInt16.size ∧ bits ≤ 8 * container) .bitsExceedContainer
  require (byteRate = align * rate) .inconsistentByteRate
  require (bits % 8 = 0) .partialByte
  require (bits ≠ 0) .noBits
  readForm length code (⟨channels, rate, container, bits, ·⟩) bytes

/-- The format and the length of the samples, and the bytes from the first sample on. The format is
that of the last chunk of its kind before the samples, or else the one given. Chunks that have
another purpose are skipped; one of them is taken to be four bytes long whatever it says. -/
def findData (format : Option Format) : Bytes → Except Fault (Format × Nat × Bytes)
  | t₀ :: t₁ :: t₂ :: t₃ :: l₀ :: l₁ :: l₂ :: l₃ :: bytes =>
    let tag := [t₀, t₁, t₂, t₃]
    let length := ofBytes [l₀, l₁, l₂, l₃]
    if tag = dataTag then
      match format with
      | some f => .ok (f, length, bytes)
      | none => .error (.illFormed .missingFormat)
    else if tag = formatTag then
      match readFormat length bytes with
      | .ok (f, size) => findData (some f) (bytes.drop size)
      | .error fault => .error fault
    else if tag = factTag then findData format (bytes.drop 4)
    else if bytes.length < length then .error .endOfFile
    else findData format (bytes.drop length)
  | _ => .error .endOfFile
termination_by bytes => bytes.length
decreasing_by all_goals simp only [List.length_cons, List.length_drop]; omega

/-- The samples of a file before they are decoded: how many there are, and the bytes from the first
one on. -/
structure Content where
  format : Format
  count : Nat
  bytes : Bytes
  deriving DecidableEq, Repr

/-- The content of a file, if its header is in order. -/
def openFile (bytes : Bytes) : Except Fault Content := do
  let riff ← field bytes 0 4
  require (riff = riffTag) .noRiffTag
  let _ ← field bytes 4 4
  let wave ← field bytes 8 4
  require (wave = waveTag) .noWaveTag
  let (f, length, rest) ← findData none (bytes.drop 12)
  require (length % f.container = 0) .partialSample
  require (length / f.container % f.channels = 0) .partialFrame
  return ⟨f, length / f.container, rest⟩

/-- The number for a whole number of at most 32 bits, rounded where it has too many digits. -/
def floatOfWhole (v : Int) : Float32 :=
  let size := (UInt32.ofNat v.natAbs).toFloat32
  if v < 0 then -size else size

/-- A whole number of `bits` bits as a sample, full scale being 1. -/
def ofWhole (bits : Nat) (v : Int) : Sample :=
  .ofComputed (floatOfWhole v / Float32.ofNat (Nat.pow 2 (bits - 1)))

/-- The sample that the bytes of one sample hold, for each format in which samples can be. Whole
numbers of 8 bits have an offset, those of more bits are in two's complement. -/
def Format.decoder (f : Format) : Except Fault (Bytes → Sample) :=
  match f.encoding, f.container, f.bits with
  | .integer, 1, 8 => .ok fun bytes => ofWhole 8 (ofBytes bytes - 128)
  | .integer, 2, 16 | .integer, 3, 24 | .integer, 4, 24 | .integer, 4, 32 =>
    .ok fun bytes => ofWhole f.bits (signed f.bits (ofBytes bytes))
  | .float, 4, 32 => .ok fun bytes => ⟨UInt32.ofNat (ofBytes bytes)⟩
  | _, container, _ => .error (if 4 < container then .tooWide else .unsupported)

/-- The samples of a file, channels taking turns. -/
def Content.samples (c : Content) : Except Fault (List Sample) :=
  if c.count = 0 then .ok []
  else
    match c.format.decoder with
    | .error fault => .error fault
    | .ok decode =>
      match groups c.format.container c.count c.bytes with
      | some pieces => .ok (pieces.map decode)
      | none => .error .endOfFile

end Remix.Wave
