import Mathlib.Tactic.Common
import Remix.Proofs.Interleaving
import Remix.Wave.Writer

/-!
# The file of a regular buffer

A regular buffer is written unless its sample rate is 0, or the bytes of a second or those of the
file are more than a header can tell. The size of the file is known from the length and the number
of channels of the buffer.
-/

namespace Remix

lemma length_flatMap_of_length {α β : Type} {width : Nat} {g : α → List β}
    (hg : ∀ x, (g x).length = width) (xs : List α) : (xs.flatMap g).length = xs.length * width := by
  have hblocks : ∀ block ∈ xs.map g, block.length = width := by
    intro block hblock
    obtain ⟨x, -, rfl⟩ := List.mem_map.mp hblock
    exact hg x
  rw [List.flatMap_def, length_flatten_of_length hblocks, List.length_map]

/-- The number of bytes of a second of a buffer, where a sample takes `bits` bits. -/
def Buffer.byteRate (b : Buffer) (bits : Nat) : Nat := b.rate.toNat * (bits / 8) * b.channels.length

namespace Wave

/-- The number of bytes of the file of a buffer. The header of 16 bits is the short one. -/
def fileSize (depth : Nat) (b : Buffer) : Nat :=
  (if depth = 16 then 44 else 68) + b.length * b.channels.length * (depth / 8)

lemma Depth.exists_ofBits? {bits : Nat} (h : bits = 16 ∨ bits = 24 ∨ bits = 32) :
    ∃ d, ofBits? bits = some d ∧ d.bits = bits := by
  rcases h with rfl | rfl | rfl
  · exact ⟨sixteen, rfl, rfl⟩
  · exact ⟨twentyFour, rfl, rfl⟩
  · exact ⟨float, rfl, rfl⟩

lemma length_sampleBytes (d : Depth) (s : Sample) : (d.sampleBytes s).length = d.width := by
  cases d <;> exact length_toBytes _ _

lemma length_fileOf {f : Format} (hf : f.channels ≤ 2) (samples : Bytes) :
    (fileOf f samples).length = (if f.bits ≤ 16 then 44 else 68) + samples.length := by
  have hidentifier : f.encoding.identifier.length = 16 := by cases f.encoding <;> rfl
  unfold fileOf Format.chunk Format.commonFields
  by_cases hshort : f.bits ≤ 16
  · rw [if_pos ⟨hshort, hf⟩, if_pos hshort]
    simp [riffTag, waveTag, formatTag, dataTag]
    omega
  · rw [if_neg fun h => hshort h.1, if_neg hshort]
    simp [riffTag, waveTag, formatTag, dataTag, hidentifier]
    omega

section Regular

variable {b : Buffer} {samples : List Sample} {bytes : Bytes}

lemma Depth.channels_format (d : Depth) (hb : b.IsRegular) :
    (d.format b).channels = b.channels.length := by
  change b.channels.length % UInt16.size = _
  rcases hb.count with h | h <;> rw [h] <;> rfl

lemma Depth.byteRate_format (d : Depth) (hb : b.IsRegular) :
    (d.format b).byteRate = b.byteRate d.bits := by
  rw [Format.byteRate, d.channels_format hb]
  rfl

lemma exists_interleaved (hb : b.IsRegular) : ∃ samples, b.interleaved? = some samples :=
  ⟨_, Buffer.interleaved_eq hb⟩

lemma length_file (d : Depth) (hb : b.IsRegular) (hsamples : b.interleaved? = some samples) :
    (fileOf (d.format b) (samples.flatMap d.sampleBytes)).length = fileSize d.bits b := by
  have hheader : (if (d.format b).bits ≤ 16 then 44 else 68) = if d.bits = 16 then 44 else 68 := by
    cases d <;> rfl
  have hwidth : (d.format b).channels ≤ 2 := by
    rw [d.channels_format hb]
    have hcount := hb.count
    omega
  rw [length_fileOf hwidth, hheader, length_flatMap_of_length (length_sampleBytes d),
    Buffer.length_interleaved hb hsamples]
  rfl

/-- What becomes of a regular buffer that is written. -/
lemma encode_eq (d : Depth) (hb : b.IsRegular) (hsamples : b.interleaved? = some samples) :
    encode d b =
      if b.rate = 0 then .error .noRate
      else if UInt32.size ≤ b.byteRate d.bits then .error .byteRateTooLarge
      else if UInt32.size + 8 ≤ fileSize d.bits b then .error .tooLong
      else .ok (fileOf (d.format b) (samples.flatMap d.sampleBytes)) := by
  have hrate : ((d.format b).rate = 0) = (b.rate = 0) := propext (UInt32.toNat_inj (b := 0))
  have hsome : (d.format b).channels ≠ 0 := by
    rw [d.channels_format hb]
    have hcount := hb.count
    omega
  have hframes : samples.length % (d.format b).channels = 0 := by
    rw [d.channels_format hb, Buffer.length_interleaved hb hsamples, Nat.mul_mod_left]
  unfold encode
  simp only [hrate, hsome, d.byteRate_format hb, hsamples, length_file d hb hsamples, hframes,
    if_false, if_true]

lemma encode_eq_ok_iff (d : Depth) (hb : b.IsRegular) (hsamples : b.interleaved? = some samples) :
    encode d b = .ok bytes ↔
      b.rate ≠ 0 ∧ b.byteRate d.bits < UInt32.size ∧ fileSize d.bits b < UInt32.size + 8 ∧
        fileOf (d.format b) (samples.flatMap d.sampleBytes) = bytes := by
  rw [encode_eq d hb hsamples]
  split_ifs <;> simp_all

end Regular

end Wave

end Remix
