import Mathlib.Tactic.Common
import Remix.Audio.Tone
import Remix.Proofs.Reexporting
import Remix.Proofs.Shapes
import Remix.Proofs.Summing

/-!
# Buffers that can be built

A buffer is made of silence, of given channels, of interleaved samples, as a tone, or from a file.
It is then padded, doubled, scaled and shifted, and mixed with others. Nothing of this brings about
a buffer that is not regular, as long as none is put together by hand.
-/

namespace Remix

lemma Files.isFilled_of_importAudio {f : Files} {path : String} {b : Buffer}
    (h : f.importAudio path = .ok b) : b.IsFilled := by
  unfold importAudio at h
  split at h
  · split at h
    · exact (delivers_decode path _).of_ok h
    · cases h
  · cases h

namespace Buffer

/-- What the audio code makes a buffer of, if not of another one. -/
inductive IsMade : Buffer → Prop where
  | silent {length : Nat} {layout : Layout} {rate : UInt32} {b : Buffer}
      (h : silent? length layout rate = some b) : IsMade b
  | channels {channels : List (List Sample)} {rate : UInt32} {b : Buffer}
      (h : ofChannels channels rate = .ok b) : IsMade b
  | interleaved {samples : List Sample} {layout : Layout} {rate : UInt32} {b : Buffer}
      (h : ofInterleaved samples layout rate = .ok b) : IsMade b
  | tone {frequency seconds : Float32} {rate : UInt32} {b : Buffer}
      (h : tone? frequency seconds rate = some b) : IsMade b
  | imported {f : Files} {path : String} {b : Buffer} (h : f.importAudio path = .ok b) : IsMade b

/-- What the audio code makes of a buffer. -/
inductive Becomes (b : Buffer) : Buffer → Prop where
  | padded {n : Nat} {c : Buffer} (h : b.padTo? n = some c) : Becomes b c
  | doubled : Becomes b b.toStereo
  | scaled (gain : Float32) : Becomes b (b.scale gain)
  | timeShifted (t : TimeShift) {c : Buffer} (h : t.apply b = .ok c) : Becomes b c
  | pitchShifted (p : PitchShift) {c : Buffer} (h : p.apply b = .ok c) : Becomes b c

/-- The buffers that the audio code arrives at in any number of steps. -/
inductive IsBuilt : Buffer → Prop where
  | made {b : Buffer} (h : b.IsMade) : IsBuilt b
  | changed {b c : Buffer} (hb : IsBuilt b) (h : b.Becomes c) : IsBuilt c
  | mixed {inputs : List NamedBuffer} {ceiling : Option Float32} {track : Track}
      (hinputs : ∀ x ∈ inputs, IsBuilt x.buffer) (h : (mix inputs ceiling).result = .ok track) :
      IsBuilt track.buffer

variable {b c : Buffer} {channels : List (List Sample)} {rate : UInt32}

section Made

/-- The check before a buffer is made and the one afterwards find the same fault. -/
lemma ofChannels_eq (channels : List (List Sample)) (rate : UInt32) :
    ofChannels channels rate =
      match layoutFault? ⟨channels, rate⟩ with
      | some fault => .error fault
      | none => .ok ⟨channels, rate⟩ := by
  cases channels with
  | nil => rfl
  | cons first rest =>
    have hlength : length ⟨first :: rest, rate⟩ = first.length := rfl
    unfold ofChannels layoutFault? layout?
    simp only [hlength]
    cases Layout.ofCount? (first :: rest).length with
    | none => rfl
    | some layout =>
      simp only [Option.isNone_some, Bool.false_eq_true, if_false]
      by_cases hequal : ∀ c ∈ first :: rest, c.length = first.length
      · rw [if_neg (by simpa using hequal), if_pos (by simpa using hequal)]
      · rw [if_pos (by simpa using hequal), if_neg (by simpa using hequal)]

lemma ofChannels_eq_ok_iff :
    ofChannels channels rate = .ok b ↔ b = ⟨channels, rate⟩ ∧ b.layoutFault? = none := by
  rw [ofChannels_eq]
  constructor
  · intro h
    split at h
    · cases h
    · rename_i hnone
      cases h
      exact ⟨rfl, hnone⟩
  · rintro ⟨rfl, hnone⟩
    rw [hnone]

lemma ofChannels_eq_error_iff {fault : LayoutFault} :
    ofChannels channels rate = .error fault ↔ layoutFault? ⟨channels, rate⟩ = some fault := by
  rw [ofChannels_eq]
  cases layoutFault? ⟨channels, rate⟩ <;> simp

lemma isRegular_silent (length : Nat) (layout : Layout) (rate : UInt32) :
    (silent length layout rate).IsRegular := by
  refine isRegular_of_lengths (n := length) ?_ fun c hc => ?_
  · rw [List.length_replicate]
    cases layout with
    | mono => exact .inl rfl
    | stereo => exact .inr rfl
  · rw [List.eq_of_mem_replicate hc, List.length_replicate]

lemma isRegular_of_tone {frequency seconds : Float32}
    (h : tone? frequency seconds rate = some b) : b.IsRegular := by
  unfold tone? at h
  dsimp only at h
  split at h
  · cases h
    refine isRegular_of_lengths (.inl rfl)
      (n := (seconds * rate.toFloat32).toUInt64.toNat) fun c hc => ?_
    rw [List.mem_singleton.mp hc, List.length_map, List.length_range]
  · cases h

theorem IsMade.isRegular (h : b.IsMade) : b.IsRegular := by
  cases h with
  | silent h =>
    unfold silent? at h
    split at h
    · cases h
      exact isRegular_silent _ _ _
    · cases h
  | channels h => exact layoutFault?_eq_none_iff.mp (ofChannels_eq_ok_iff.mp h).2
  | interleaved h => exact isRegular_of_ofInterleaved h
  | tone h => exact isRegular_of_tone h
  | imported h => exact (Files.isFilled_of_importAudio h).toIsRegular

end Made

section Changed

lemma isRegular_padTo (hb : b.IsRegular) (n : Nat) : (b.padTo n).IsRegular := by
  refine isRegular_of_lengths (n := b.length + (n - b.length)) ?_ fun c hc => ?_
  · rw [List.length_map]
    exact hb.count
  · obtain ⟨channel, hchannel, rfl⟩ := List.mem_map.mp hc
    rw [List.length_append, List.length_replicate, hb.lengths channel hchannel]

lemma isRegular_toStereo (hb : b.IsRegular) : b.toStereo.IsRegular := by
  unfold toStereo
  split
  · rename_i channel _
    exact isRegular_of_lengths (.inr rfl) (n := channel.length) (by simp)
  · exact hb

/-- One step keeps a buffer regular. -/
theorem Becomes.isRegular (h : b.Becomes c) (hb : b.IsRegular) : c.IsRegular := by
  cases h with
  | padded h =>
    unfold padTo? at h
    split at h
    · cases h
      exact isRegular_padTo hb _
    · cases h
  | doubled => exact isRegular_toStereo hb
  | scaled gain => exact (Mix.sameShape_scale gain b).isRegular hb
  | timeShifted t h => exact (TimeShift.sameShape_of_apply h).isRegular hb
  | pitchShifted p h => exact (PitchShift.sameShape_of_apply h).isRegular hb

end Changed

lemma isRegular_of_mix {inputs : List NamedBuffer} {ceiling : Option Float32} {track : Track}
    (hinputs : ∀ x ∈ inputs, x.buffer.IsRegular) (h : (mix inputs ceiling).result = .ok track) :
    track.buffer.IsRegular := by
  have hmapped : (mix inputs ceiling).result.mapError Error.runtime = .ok track := by rw [h]; rfl
  exact (delivers_mix ceiling hinputs).of_ok hmapped

lemma exists_regular_mix {inputs : List NamedBuffer} (ceiling : Option Float32) (hne : inputs ≠ [])
    (hrate : ∀ x ∈ inputs, ∀ y ∈ inputs, x.buffer.rate = y.buffer.rate)
    (h : ∀ x ∈ inputs, x.buffer.IsRegular) :
    ∃ track, (mix inputs ceiling).result = .ok track ∧ track.buffer.IsRegular := by
  have houtcome := outcome_mix (fun x hx => (h x hx).count) ceiling
  obtain ⟨-, track, -, -, -, htrack⟩ := houtcome.exists_track hne hrate
  exact ⟨track, htrack, isRegular_of_mix h htrack⟩

/-- Whatever is built is regular: each step keeps what the ones before it have brought about. -/
theorem IsBuilt.isRegular (h : b.IsBuilt) : b.IsRegular := by
  induction h with
  | made h => exact h.isRegular
  | changed _ h ih => exact h.isRegular ih
  | mixed _ h ih => exact isRegular_of_mix ih h

end Buffer

/-- One or two channels of equal length are an invariant of the audio code. Channels are accepted if
and only if there is nothing wrong with the buffer of them, and refused with what is wrong with it.
Nothing is wrong with a buffer that is made, and one from a file has a sample. Every step, and every
mix, keeps it so; buffers have a mix if they are of one sample rate, and none if they are not. So
nothing is wrong with any buffer that is built. -/
theorem layout_invariant :
    (∀ channels rate b,
      Buffer.ofChannels channels rate = .ok b ↔ b = ⟨channels, rate⟩ ∧ b.layoutFault? = none) ∧
    (∀ channels rate fault, Buffer.ofChannels channels rate = .error fault ↔
      Buffer.layoutFault? ⟨channels, rate⟩ = some fault) ∧
    (∀ b : Buffer, b.IsMade → b.layoutFault? = none) ∧
    (∀ (f : Files) (path : String) (b : Buffer), f.importAudio path = .ok b → 0 < b.length) ∧
    (∀ b c : Buffer, b.layoutFault? = none → b.Becomes c → c.layoutFault? = none) ∧
    (∀ (inputs : List NamedBuffer) (ceiling : Option Float32), inputs ≠ [] →
      (∀ x ∈ inputs, x.buffer.layoutFault? = none) →
      (∀ x ∈ inputs, ∀ y ∈ inputs, x.buffer.rate = y.buffer.rate) →
      ∃ track, (mix inputs ceiling).result = .ok track ∧ track.buffer.layoutFault? = none) ∧
    (∀ (inputs : List NamedBuffer) (ceiling : Option Float32),
      (∃ x ∈ inputs, ∃ y ∈ inputs, x.buffer.rate ≠ y.buffer.rate) →
      ∃ context expected found,
        (mix inputs ceiling).result = .error (.incompatibleRate context expected found)) ∧
    (∀ (inputs : List NamedBuffer) (ceiling : Option Float32) (track : Track),
      (∀ x ∈ inputs, x.buffer.layoutFault? = none) → (mix inputs ceiling).result = .ok track →
      track.buffer.layoutFault? = none) ∧
    ∀ b : Buffer, b.IsBuilt → b.layoutFault? = none := by
  simp only [Buffer.layoutFault?_eq_none_iff]
  refine ⟨fun channels rate b => ?_, fun channels rate fault => Buffer.ofChannels_eq_error_iff,
    fun b hb => hb.isRegular, fun f path b hb => (Files.isFilled_of_importAudio hb).length_pos,
    fun b c hb hc => hc.isRegular hb,
    fun inputs ceiling hne h hrate => Buffer.exists_regular_mix ceiling hne hrate h,
    fun inputs ceiling hdiffer => ?_,
    fun inputs ceiling track h htrack => Buffer.isRegular_of_mix h htrack, fun b hb => hb.isRegular⟩
  · rw [Buffer.ofChannels_eq_ok_iff, Buffer.layoutFault?_eq_none_iff]
  · obtain ⟨first, other, hother⟩ := Mix.exists_differ hdiffer
    exact ⟨_, _, _, mix_of_differ hother ceiling⟩

/-- A stem from a file that is padded and doubled, and mixed with itself. -/
theorem layout_invariant_quietVocals :
    let vocals : Buffer := ⟨[[⟨0x38000000⟩, ⟨0xb8c00000⟩]], 8000⟩
    let padded : Buffer := ⟨[[⟨0x38000000⟩, ⟨0xb8c00000⟩, 0]], 8000⟩
    quietVocals.importAudio "stems/vocals.wav" = .ok vocals ∧ 0 < vocals.length ∧
    vocals.layoutFault? = none ∧ vocals.padTo? 3 = some padded ∧ padded.layoutFault? = none ∧
    (∃ track, (mix [⟨"vocals", vocals⟩, ⟨"wide", padded.toStereo⟩] none).result = .ok track ∧
      track.buffer.layoutFault? = none ∧ track.buffer.IsBuilt ∧
      (track.buffer.scale 2).layoutFault? = none) ∧
    ∃ context expected found, (mix [⟨"vocals", vocals⟩, ⟨"other", .empty⟩] none).result =
      .error (.incompatibleRate context expected found) := by
  intro vocals padded
  obtain ⟨-, -, hmade, hpos, hbecomes, hmix, hdiffer, hmixed, hbuilt⟩ := layout_invariant
  have himport : quietVocals.importAudio "stems/vocals.wav" = .ok vocals := by decide +kernel
  have hpadded : vocals.padTo? 3 = some padded := by decide
  have hvocals := hmade vocals (.imported himport)
  have hpad := hbecomes vocals padded hvocals (.padded hpadded)
  have hwide := hbecomes padded padded.toStereo hpad .doubled
  have hinputs : ∀ x ∈ [(⟨"vocals", vocals⟩ : NamedBuffer), ⟨"wide", padded.toStereo⟩],
      x.buffer.layoutFault? = none := by
    intro x hx
    rcases List.mem_pair.mp hx with rfl | rfl
    · exact hvocals
    · exact hwide
  obtain ⟨track, htrack, -⟩ := hmix _ none (by simp) hinputs (by decide)
  have hstem : vocals.IsBuilt := .made (.imported himport)
  have htrackBuilt : track.buffer.IsBuilt := by
    refine .mixed (fun x hx => ?_) htrack
    rcases List.mem_pair.mp hx with rfl | rfl
    · exact hstem
    · exact (hstem.changed (.padded hpadded)).changed .doubled
  refine ⟨himport, hpos _ _ _ himport, hvocals, hpadded, hpad, ⟨track, htrack,
    hmixed _ _ _ hinputs htrack, htrackBuilt, hbuilt _ (htrackBuilt.changed (.scaled 2))⟩, ?_⟩
  exact hdiffer _ none ⟨⟨"vocals", vocals⟩, by simp, ⟨"other", .empty⟩, by simp, by decide⟩

/-- Two buffers with nothing wrong with either have no mix if their rates differ. -/
theorem layout_invariant_fails_rates :
    let inputs : List NamedBuffer := [⟨"low", ⟨[[0]], 8000⟩⟩, ⟨"high", ⟨[[0]], 16000⟩⟩]
    inputs ≠ [] ∧ (∀ x ∈ inputs, x.buffer.layoutFault? = none) ∧
    (mix inputs none).result = .error (.incompatibleRate "mix of 'low' and 'high'" 8000 16000) ∧
    ¬ ∃ track, (mix inputs none).result = .ok track := by
  intro inputs
  have hfails : (mix inputs none).result =
      .error (.incompatibleRate "mix of 'low' and 'high'" 8000 16000) := by decide
  refine ⟨by decide, by decide, hfails, ?_⟩
  rintro ⟨track, htrack⟩
  rw [hfails] at htrack
  cases htrack

end Remix
