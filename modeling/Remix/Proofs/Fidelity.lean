import Mathlib.Tactic.Common
import Remix.Proofs.ExactValues
import Remix.Proofs.Reexporting

/-!
# What a file keeps of a buffer

A buffer that is exported and imported again has the same shape at every depth. With samples of 32
bits it is the same buffer, whatever its samples are. With fewer bits every sample has become a
multiple of the smallest step of the file, and which one is told by its exact value.
-/

namespace Remix

namespace Wave

/-- A sample and what is read where it was written as a whole number of `depth` bits. Full scale is
less by one on the way into the file than on the way back. -/
def Requantized (depth : Nat) (s s' : Sample) : Prop :=
  let scaled := Exact.ofFloat32 (s.value * Float32.ofNat (2 ^ (depth - 1) - 1))
  let q := scaled.cutOff (2 ^ (depth - 1))
  s' = ofWhole depth q ∧ (Exact.ofFloat32 s'.value).rational? = some ((q : ℚ) / 2 ^ (depth - 1))

lemma requantized_reread {d : Depth} (hd : d ≠ .float) (s : Sample) :
    Requantized d.bits s (d.reread s) := by
  have hbits := bits_of_ne_float hd
  obtain ⟨hlower, hupper⟩ := quantize_mem d.bits s.value
  have hsize : (quantize d.bits s.value).natAbs ≤ 2 ^ (d.bits - 1) := by
    rw [Nat.pow_eq] at hlower hupper
    omega
  unfold Requantized
  dsimp only
  rw [reread_of_ne_float hd, ← quantize_eq hbits]
  exact ⟨rfl, rational_ofWhole hbits hsize⟩

end Wave

/-- A regular buffer with samples is exported to a file of the expected size, if its header has room
for the rates and the sizes, and is imported again: the same buffer from samples of 32 bits, and one
of the same shape from whole numbers. -/
theorem import_export (f : Files) (path : String) (names : List String) (depth : Nat) (b : Buffer)
    (htarget : f.target path = .ok names) (hdepth : depth = 16 ∨ depth = 24 ∨ depth = 32)
    (hb : b.IsRegular) (hpos : 0 < b.length) (hrate : b.rate ≠ 0)
    (hbyteRate : b.byteRate depth < 2 ^ 32) (hsize : Wave.fileSize depth b < 2 ^ 32) :
    ∃ g bytes b', f.exportAudio path depth b = .ok g ∧ g.read path = .ok bytes ∧
      bytes.length = Wave.fileSize depth b ∧ g.importAudio path = .ok b' ∧ b'.SameShape b ∧
      (depth = 32 → b' = b) ∧
      (depth ≠ 32 →
        List.Forall₂ (List.Forall₂ (Wave.Requantized depth)) b.channels b'.channels) := by
  obtain ⟨d, -, rfl⟩ := Wave.Depth.exists_ofBits? hdepth
  obtain ⟨samples, hsamples⟩ := Wave.exists_interleaved hb
  have hencode := (Wave.encode_eq_ok_iff d hb hsamples).mpr
    ⟨hrate, hbyteRate, hsize.trans (by decide), rfl⟩
  have hlength := Wave.length_file d hb hsamples
  generalize Wave.fileOf (d.format b) (samples.flatMap d.sampleBytes) = bytes at hencode hlength
  have hexport : f.exportAudio path d.bits b = .ok (f.addFile names bytes) := by
    rw [Files.exportAudio_of_target htarget, hencode]
    rfl
  have hread := (Files.isTarget_of_target htarget).read_addFile bytes
  refine ⟨f.addFile names bytes, bytes, b.map d.reread, hexport, hread, hlength, ?_,
    Buffer.sameShape_map (fun _ => List.length_map _) b, ?_, ?_⟩
  · rw [Files.importAudio_of_read hread, Wave.decode_encode ⟨hb, hpos⟩ hencode]
  · intro hfloat
    cases d <;> cases hfloat
    exact (Buffer.map_eq_self_iff hb hsamples _).mpr fun _ _ => rfl
  · intro hwhole
    have hd : d ≠ .float := by
      rintro rfl
      exact hwhole rfl
    refine List.forall₂_map_right_iff.mpr (List.forall₂_same.mpr fun c _ => ?_)
    exact List.forall₂_map_right_iff.mpr
      (List.forall₂_same.mpr fun s _ => Wave.requantized_reread hd s)

/-- Two channels: what is no number and an infinite number, and a number beyond full scale and one
half below 0. -/
def loudPair : Buffer := ⟨[[⟨0x7fc00001⟩, ⟨0x7f800000⟩], [⟨0x3fc00000⟩, ⟨0xbf000000⟩]], 44100⟩

theorem import_export_loudPair :
    Files.empty.target "loud.wav" = .ok ["loud.wav"] ∧ loudPair.IsRegular ∧
    ∃ g bytes b', Files.empty.exportAudio "loud.wav" 16 loudPair = .ok g ∧
      g.read "loud.wav" = .ok bytes ∧ bytes.length = 52 ∧ g.importAudio "loud.wav" = .ok b' ∧
      b'.SameShape loudPair ∧
      List.Forall₂ (List.Forall₂ (Wave.Requantized 16)) loudPair.channels b'.channels := by
  have htarget : Files.empty.target "loud.wav" = .ok ["loud.wav"] := by decide
  have hregular : loudPair.IsRegular := ⟨.inr rfl, by decide⟩
  obtain ⟨g, bytes, b', hexport, hread, hlength, himport, hshape, -, hrequantized⟩ :=
    import_export Files.empty "loud.wav" ["loud.wav"] 16 loudPair htarget (.inl rfl) hregular
      (by decide) (by decide) (by decide) (by decide)
  exact ⟨htarget, hregular, g, bytes, b', hexport, hread, hlength, himport, hshape,
    hrequantized (by decide)⟩

/-- At 16 bits the samples that are not below full scale all become the largest whole number. -/
example : (Files.empty.exportAudio "loud.wav" 16 loudPair >>= fun g => g.importAudio "loud.wav") =
    .ok ⟨[[⟨0⟩, ⟨0x3f7ffe00⟩], [⟨0x3f7ffe00⟩, ⟨0xbefffc00⟩]], 44100⟩ := by
  decide +kernel

end Remix
