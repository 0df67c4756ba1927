import Mathlib.Tactic.Common
import Remix.Proofs.Encoding
import Remix.Proofs.Headers
import Remix.Wave.Import

/-!
# Reading what was written

A regular buffer that is written can be read, and has the same shape: the bytes fall into groups,
one for each sample, and the samples are dealt out to the channels from which they were taken. What
becomes of a sample depends on the depth and on nothing but this sample.
-/

namespace Remix

section Groups

variable {α β : Type} {width : Nat} {g : α → List β}

lemma groupsAfter_flatMap (hg : ∀ x, (g x).length = width) (done : List (List β)) (xs : List α) :
    groupsAfter width xs.length done (xs.flatMap g) = some (done.reverse ++ xs.map g) := by
  induction xs generalizing done with
  | nil => simp [groupsAfter]
  | cons x xs ih =>
    have htake : (g x ++ xs.flatMap g).take width = g x := by rw [← hg x, List.take_left]
    have hdrop : (g x ++ xs.flatMap g).drop width = xs.flatMap g := by
      rw [← hg x, List.drop_left]
    rw [List.length_cons, List.flatMap_cons, groupsAfter, htake, hdrop, if_pos (hg x), ih]
    simp

lemma groups_flatMap (hg : ∀ x, (g x).length = width) (xs : List α) :
    groups width xs.length (xs.flatMap g) = some (xs.map g) :=
  groupsAfter_flatMap hg [] xs

end Groups

namespace Buffer

variable {α β : Type}

lemma frames_map (φ : α → β) (n : Nat) (channels : List (List α)) :
    frames n (channels.map (·.map φ)) = (frames n channels).map (·.map φ) := by
  induction channels with
  | nil => simp [frames]
  | cons c channels ih =>
    rw [List.map_cons, frames_cons, frames_cons, ih, List.zipWith_map, List.map_zipWith]
    rfl

/-- A buffer with every sample replaced. -/
def map (φ : Sample → Sample) (b : Buffer) : Buffer :=
  { b with channels := b.channels.map (·.map φ) }

variable {b : Buffer}

lemma length_map (φ : Sample → Sample) (b : Buffer) : (b.map φ).length = b.length := by
  obtain ⟨_ | ⟨c, channels⟩, rate⟩ := b
  · rfl
  · exact List.length_map φ

lemma isRegular_map (hb : b.IsRegular) (φ : Sample → Sample) : (b.map φ).IsRegular := by
  refine ⟨by simpa [map] using hb.count, fun c hc => ?_⟩
  obtain ⟨c', hc', rfl⟩ := List.mem_map.mp hc
  rw [length_map, ← hb.lengths c' hc']
  exact List.length_map φ

lemma interleaved_map (hb : b.IsRegular) (φ : Sample → Sample) :
    (b.map φ).interleaved? = b.interleaved?.map (·.map φ) := by
  rw [interleaved_eq hb, interleaved_eq (isRegular_map hb φ), length_map]
  change some (frames b.length (b.channels.map (·.map φ))).flatten = _
  rw [frames_map, ← List.map_flatten]
  rfl

end Buffer

namespace Wave

/-- What a sample is read as after it was written. -/
def Depth.reread (d : Depth) (s : Sample) : Sample :=
  match d with
  | sixteen => ofWhole 16 (quantize 16 s.value)
  | twentyFour => ofWhole 24 (quantize 24 s.value)
  | float => s

/-- A whole number is read back from its bytes, if they have room for it. -/
lemma signed_signedBytes {bits width : Nat} (hbits : Nat.pow 2 bits = Nat.pow 256 width) {v : Int}
    (hlower : -(Nat.pow 256 width : Int) ≤ v * 2) (hupper : v * 2 < Nat.pow 256 width) :
    signed bits (ofBytes (signedBytes width v)) = v := by
  have hpos : (0 : Int) < Nat.pow 256 width := Int.natCast_pos.mpr (Nat.pow_pos (by decide))
  have hnonneg := Int.emod_nonneg v hpos.ne'
  have hlt := Int.emod_lt_of_pos v hpos
  have hcast : ((ofBytes (signedBytes width v) : Nat) : Int) = v % (Nat.pow 256 width : Nat) := by
    rw [signedBytes, ofBytes_toBytes, Nat.mod_eq_of_lt (by omega), Int.toNat_of_nonneg hnonneg]
  rw [signed, hcast, hbits, Int.emod_bmod, Int.bmod_eq_of_le_mul_two hlower hupper]

lemma quantize_mem (bits : Nat) (x : Float32) :
    -(Nat.pow 2 (bits - 1) : Int) ≤ quantize bits x ∧
      quantize bits x < Nat.pow 2 (bits - 1) := by
  have hpos : 0 < Nat.pow 2 (bits - 1) := Nat.pow_pos (by decide)
  unfold quantize
  dsimp only
  omega

lemma signed_quantize {bits width : Nat} (hbits : Nat.pow 2 bits = Nat.pow 256 width)
    (hhalf : Nat.pow 2 (bits - 1) * 2 = Nat.pow 256 width) (x : Float32) :
    signed bits (ofBytes (signedBytes width (quantize bits x))) = quantize bits x := by
  obtain ⟨hlower, hupper⟩ := quantize_mem bits x
  exact signed_signedBytes hbits (by omega) (by omega)

section Whole

variable {d : Depth}

lemma eq_of_ne_float (hd : d ≠ .float) : d = .sixteen ∨ d = .twentyFour := by
  cases d with
  | sixteen => exact .inl rfl
  | twentyFour => exact .inr rfl
  | float => exact absurd rfl hd

lemma reread_of_ne_float (hd : d ≠ .float) (s : Sample) :
    d.reread s = ofWhole d.bits (quantize d.bits s.value) := by
  rcases eq_of_ne_float hd with rfl | rfl <;> rfl

lemma signed_sampleBytes (hd : d ≠ .float) (s : Sample) :
    signed d.bits (ofBytes (d.sampleBytes s)) = quantize d.bits s.value := by
  rcases eq_of_ne_float hd with rfl | rfl
  · exact @signed_quantize 16 2 (by decide) (by decide) s.value
  · exact @signed_quantize 24 3 (by decide) (by decide) s.value

end Whole

lemma exists_decoder (d : Depth) (b : Buffer) : ∃ decode, (d.format b).decoder = .ok decode ∧
    ∀ s, decode (d.sampleBytes s) = d.reread s := by
  cases d with
  | sixteen => exact ⟨_, rfl, fun s => congrArg (ofWhole 16) (signed_sampleBytes (by decide) s)⟩
  | twentyFour =>
    exact ⟨_, rfl, fun s => congrArg (ofWhole 24) (signed_sampleBytes (by decide) s)⟩
  | float =>
    refine ⟨_, rfl, fun s => ?_⟩
    change Sample.mk (UInt32.ofNat (ofBytes (toBytes 4 s.bits.toNat))) = s
    have hbits : s.bits.toNat < Nat.pow 256 4 := s.bits.toNat_lt
    rw [ofBytes_toBytes, Nat.mod_eq_of_lt hbits, UInt32.ofNat_toNat]

/-- Every sample is read back by itself. -/
lemma samples_of_flatMap (d : Depth) (b : Buffer) (samples : List Sample) :
    Content.samples ⟨d.format b, samples.length, samples.flatMap d.sampleBytes⟩ =
      .ok (samples.map d.reread) := by
  obtain ⟨decode, hdecoder, hdecode⟩ := exists_decoder d b
  have hgroups : groups (d.format b).container samples.length (samples.flatMap d.sampleBytes) =
      some (samples.map d.sampleBytes) := groups_flatMap (length_sampleBytes d) samples
  unfold Content.samples
  dsimp only
  by_cases hempty : samples.length = 0
  · rw [if_pos hempty, List.eq_nil_of_length_eq_zero hempty]
    rfl
  · rw [if_neg hempty, hdecoder]
    dsimp only
    rw [hgroups]
    dsimp only
    rw [List.map_map]
    exact congrArg Except.ok (List.map_congr_left fun s _ => hdecode s)

section Written

variable {b : Buffer} {d : Depth} {samples : List Sample} {bytes : Bytes}

lemma isWritable_format (hb : b.IsRegular) (hrate : b.rate ≠ 0)
    (hbyteRate : b.byteRate d.bits < UInt32.size) : (d.format b).IsWritable := by
  refine ⟨?_, ?_, ?_, d, rfl, rfl, rfl⟩
  · rw [d.channels_format hb]
    exact hb.count
  · exact Nat.pos_of_ne_zero fun hzero => hrate (UInt32.toNat_inj.mp hzero)
  · rwa [d.byteRate_format hb]

/-- The file of a regular buffer holds its samples. -/
lemma openFile_encode (hb : b.IsRegular) (hsamples : b.interleaved? = some samples)
    (h : encode d b = .ok bytes) :
    openFile bytes = .ok ⟨d.format b, samples.length, samples.flatMap d.sampleBytes⟩ := by
  obtain ⟨hrate, hbyteRate, hsize, rfl⟩ := (encode_eq_ok_iff d hb hsamples).mp h
  have hlength := Buffer.length_interleaved hb hsamples
  have hbytes : (samples.flatMap d.sampleBytes).length = samples.length * (d.format b).container :=
    length_flatMap_of_length (length_sampleBytes d) samples
  have hroom : (samples.flatMap d.sampleBytes).length < UInt32.size := by
    rw [hbytes, hlength]
    unfold fileSize at hsize
    change _ * (d.bits / 8) < _
    split at hsize <;> omega
  refine openFile_fileOf (isWritable_format hb hrate hbyteRate) hbytes hroom ?_
  rw [d.channels_format hb, hlength, Nat.mul_mod_left]

/-- Whatever is written of a regular buffer with samples is read back. -/
lemma decode_encode (hb : b.IsFilled) (h : encode d b = .ok bytes) (path : String) :
    decode path bytes = .ok (b.map d.reread) := by
  have hregular := hb.toIsRegular
  have hcount := hregular.count
  obtain ⟨samples, hsamples⟩ := exists_interleaved hregular
  have hopen := openFile_encode hregular hsamples h
  obtain ⟨layout, hlayout, hdealt⟩ := Buffer.ofInterleaved_of_interleaved
    (Buffer.isRegular_map hregular d.reread)
    (by rw [Buffer.interleaved_map hregular, hsamples]; rfl)
  have hcounted : Layout.ofCount? (d.format b).channels = some layout := by
    rw [d.channels_format hregular, ← hlayout, Buffer.layout?, Buffer.map, List.length_map]
  obtain ⟨kind, hkind⟩ : ∃ kind, (d.format b).kind? = some kind := by
    cases d <;> exact ⟨_, rfl⟩
  have hsome : (samples.map d.reread).isEmpty = false := by
    rw [List.isEmpty_eq_false_iff, ne_eq, List.map_eq_nil_iff]
    rintro rfl
    have hlength := Buffer.length_interleaved hregular hsamples
    rw [List.length_nil] at hlength
    exact (Nat.mul_pos hb.length_pos (by omega)).ne hlength
  have hsamerate : UInt32.ofNat (d.format b).rate = (b.map d.reread).rate := UInt32.ofNat_toNat
  unfold decode
  rw [hopen]
  simp only [Except.mapError, bind, Except.bind, hcounted, hkind, samples_of_flatMap, hsome,
    hsamerate, hdealt]
  rfl

end Written

end Wave

end Remix
