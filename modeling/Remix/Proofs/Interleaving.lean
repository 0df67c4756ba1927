import Mathlib.Tactic.Common
import Remix.Proofs.Regularity

/-!
# Interleaving

A buffer is interleaved moment by moment, and a list of samples is dealt out to the channels one by
one. `Buffer.IsInterleaving` says where each sample of a buffer stands in such a list, and for
regular buffers the two ways take each other back. A list that does not come out even is refused.
-/

namespace Remix

section Blocks

variable {α : Type} {k : Nat} {blocks : List (List α)}

lemma length_flatten_of_length (h : ∀ block ∈ blocks, block.length = k) :
    blocks.flatten.length = blocks.length * k := by
  induction blocks with
  | nil => simp
  | cons block rest ih =>
    rw [List.flatten_cons, List.length_append, h block List.mem_cons_self,
      ih fun block hblock => h block (List.mem_cons_of_mem _ hblock), List.length_cons,
      Nat.succ_mul, Nat.add_comm]

/-- Behind `i` blocks of one length stands the next one. -/
lemma getElem?_flatten_of_length (h : ∀ block ∈ blocks, block.length = k) (i : Nat) {c : Nat}
    (hc : c < k) : blocks.flatten[i * k + c]? = blocks[i]?.bind (·[c]?) := by
  induction blocks generalizing i with
  | nil => simp
  | cons block rest ih =>
    have hblock := h block List.mem_cons_self
    rw [List.flatten_cons]
    cases i with
    | zero =>
      rw [Nat.zero_mul, Nat.zero_add, List.getElem?_append_left (by omega), List.getElem?_cons_zero]
      rfl
    | succ i =>
      have hskip : (i + 1) * k + c - block.length = i * k + c := by
        rw [hblock, Nat.succ_mul]
        omega
      have hbehind : block.length ≤ (i + 1) * k + c := by
        rw [hblock, Nat.succ_mul]
        omega
      rw [List.getElem?_append_right hbehind, hskip, List.getElem?_cons_succ]
      exact ih (fun block hblock => h block (List.mem_cons_of_mem _ hblock)) i

end Blocks

namespace Buffer

/-- Samples in which the channels of a buffer take turns: those of the moment `i` stand side by
side, in channel order, behind those of the moments before it. -/
structure IsInterleaving (b : Buffer) (samples : List Sample) : Prop where
  length : samples.length = b.channels.length * b.length
  place : ∀ i < b.length, ∀ c (hc : c < b.channels.length),
    samples[i * b.channels.length + c]? = b.channels[c][i]?

section Frames

variable {α : Type} {n : Nat} {channels : List (List α)}

lemma frames_cons (n : Nat) (c : List α) (channels : List (List α)) :
    frames n (c :: channels) = List.zipWith (· :: ·) c (frames n channels) :=
  rfl

lemma length_of_mem_frames : ∀ frame ∈ frames n channels, frame.length = channels.length := by
  induction channels with
  | nil =>
    intro frame hframe
    exact congrArg List.length (List.eq_of_mem_replicate hframe)
  | cons c channels ih =>
    intro frame hframe
    obtain ⟨i, hi, rfl⟩ := List.mem_iff_getElem.mp hframe
    simp only [frames_cons, List.getElem_zipWith, List.length_cons]
    rw [ih _ (List.getElem_mem _)]

lemma length_frames (h : ∀ c ∈ channels, c.length = n) :
    (frames n channels).length = n ∧ (frames n channels).flatten.length = n * channels.length := by
  have hlength : (frames n channels).length = n := by
    induction channels with
    | nil => exact List.length_replicate
    | cons c channels ih =>
      rw [frames_cons, List.length_zipWith, h c List.mem_cons_self,
        ih fun c hc => h c (List.mem_cons_of_mem _ hc), Nat.min_self]
  refine ⟨hlength, ?_⟩
  rw [length_flatten_of_length length_of_mem_frames, hlength]

/-- The moments of channels, read across: the sample of a channel at a moment. -/
lemma getElem?_frames (h : ∀ c ∈ channels, c.length = n) {i : Nat} (hi : i < n) (c : Nat) :
    (frames n channels)[i]?.bind (·[c]?) = channels[c]?.bind (·[i]?) := by
  induction channels generalizing c with
  | nil => simp [frames, hi]
  | cons first rest ih =>
    have hrest : ∀ c ∈ rest, c.length = n := fun c hc => h c (List.mem_cons_of_mem _ hc)
    have hfirst : i < first.length := (h first List.mem_cons_self).symm ▸ hi
    have hframe : i < (frames n rest).length := (length_frames hrest).1.symm ▸ hi
    have hframes : (frames n (first :: rest))[i]? = some (first[i] :: (frames n rest)[i]) := by
      rw [frames_cons, List.getElem?_zipWith, List.getElem?_eq_getElem hfirst,
        List.getElem?_eq_getElem hframe]
    rw [hframes]
    -- The place in a moment is the number of a channel, so the cases are those of the channels.
    cases c with
    | zero => simp [hfirst]
    | succ c =>
      have hrest' := ih hrest c
      rw [List.getElem?_eq_getElem hframe] at hrest'
      simpa using hrest'

lemma flatten_frames_one (c : List α) : (frames c.length [c]).flatten = c := by
  induction c with
  | nil => rfl
  | cons x c ih => exact congrArg (x :: ·) ih

lemma flatten_frames_deal :
    ∀ xs : List α, xs.length % 2 = 0 →
      (frames (deal xs).1.length [(deal xs).1, (deal xs).2]).flatten = xs
  | [], _ => rfl
  | [_], h => nomatch h
  | x :: y :: xs, h => by
    have hrest := flatten_frames_deal xs ((Nat.add_mod_right xs.length 2).symm.trans h)
    exact congrArg (fun rest => x :: y :: rest) hrest

lemma deal_flatten_frames {left right : List α} (h : left.length = right.length) :
    deal (frames left.length [left, right]).flatten = (left, right) ∧
      (frames left.length [left, right]).flatten.length % 2 = 0 := by
  induction left generalizing right with
  | nil =>
    rw [List.eq_nil_of_length_eq_zero h.symm]
    exact ⟨rfl, rfl⟩
  | cons x left ih =>
    cases right with
    | nil => cases h
    | cons y right =>
      obtain ⟨hdeal, heven⟩ := ih (Nat.succ.inj h)
      have hflatten : (frames (x :: left).length [x :: left, y :: right]).flatten =
          x :: y :: (frames left.length [left, right]).flatten := rfl
      rw [hflatten]
      refine ⟨?_, (Nat.add_mod_right _ 2).trans heven⟩
      change (x :: (deal _).1, y :: (deal _).2) = _
      rw [hdeal]

end Frames

variable {b : Buffer} {samples : List Sample} {layout : Layout} {rate : UInt32}

lemma interleaved_eq (hb : b.IsRegular) :
    b.interleaved? = some (frames b.length b.channels).flatten := by
  refine if_pos (List.all_eq_true.mpr fun c hc => ?_)
  exact decide_eq_true (Nat.le_of_eq (hb.lengths c hc).symm)

lemma length_interleaved (hb : b.IsRegular) (h : b.interleaved? = some samples) :
    samples.length = b.length * b.channels.length := by
  rw [interleaved_eq hb] at h
  cases h
  exact (length_frames hb.lengths).2

lemma isInterleaving_of_interleaved (hb : b.IsRegular) (h : b.interleaved? = some samples) :
    b.IsInterleaving samples := by
  refine ⟨(length_interleaved hb h).trans (Nat.mul_comm _ _), fun i hi c hc => ?_⟩
  rw [interleaved_eq hb] at h
  cases h
  rw [getElem?_flatten_of_length length_of_mem_frames i hc, getElem?_frames hb.lengths hi,
    List.getElem?_eq_getElem hc, Option.bind_some]

/-- Samples that are dealt out and interleaved again are as before. -/
lemma interleaved_of_ofInterleaved (h : ofInterleaved samples layout rate = .ok b) :
    b.interleaved? = some samples ∧ b.rate = rate ∧ b.channels.length = layout.channelCount := by
  rw [interleaved_eq (isRegular_of_ofInterleaved h)]
  cases layout with
  | mono =>
    cases h
    exact ⟨congrArg some (flatten_frames_one samples), rfl, rfl⟩
  | stereo =>
    rw [ofInterleaved] at h
    by_cases heven : samples.length % 2 = 0
    · rw [if_pos heven] at h
      cases h
      exact ⟨congrArg some (flatten_frames_deal samples heven), rfl, rfl⟩
    · rw [if_neg heven] at h
      cases h

/-- A buffer of samples that are dealt out is empty only if there are none. -/
lemma length_pos_of_ofInterleaved (h : ofInterleaved samples layout rate = .ok b)
    (hne : samples ≠ []) : 0 < b.length := by
  obtain ⟨hsamples, -, -⟩ := interleaved_of_ofInterleaved h
  have hlength := length_interleaved (isRegular_of_ofInterleaved h) hsamples
  refine Nat.pos_of_ne_zero fun hzero => hne (List.eq_nil_of_length_eq_zero ?_)
  rw [hlength, hzero, Nat.zero_mul]

/-- A regular buffer that is interleaved and dealt out again is as before. -/
lemma ofInterleaved_of_interleaved (hb : b.IsRegular) (h : b.interleaved? = some samples) :
    ∃ layout, b.layout? = some layout ∧ ofInterleaved samples layout b.rate = .ok b := by
  rw [interleaved_eq hb] at h
  cases h
  obtain ⟨channels, rate⟩ := b
  rcases hb.count with hone | htwo
  · obtain ⟨c, rfl⟩ := List.length_eq_one_iff.mp hone
    have hflatten : (frames (length ⟨[c], rate⟩) [c]).flatten = c := flatten_frames_one c
    refine ⟨.mono, rfl, ?_⟩
    dsimp only
    rw [hflatten, ofInterleaved]
  · obtain ⟨left, right, rfl⟩ := List.length_eq_two.mp htwo
    have hlength : right.length = left.length := hb.lengths right (by simp)
    obtain ⟨hdeal, heven⟩ := deal_flatten_frames hlength.symm
    refine ⟨.stereo, rfl, ?_⟩
    change ofInterleaved (frames left.length [left, right]).flatten .stereo rate = _
    rw [ofInterleaved, if_pos heven, hdeal]

lemma exists_ofInterleaved (h : samples.length % layout.channelCount = 0) (rate : UInt32) :
    ∃ b, ofInterleaved samples layout rate = .ok b := by
  cases layout with
  | mono => exact ⟨_, rfl⟩
  | stereo => exact ⟨_, if_pos h⟩

lemma ofInterleaved_of_uneven (h : samples.length % layout.channelCount ≠ 0) (rate : UInt32) :
    ofInterleaved samples layout rate =
      .error (.incompleteFrame samples.length layout.channelCount) := by
  cases layout with
  | mono => exact absurd (Nat.mod_one _) h
  | stereo => exact if_neg h

/-- Dealing out and interleaving are inverse to each other. Samples that come out even become a
regular buffer of the layout asked for, in which they take turns, and are its interleaved samples;
all others are refused. A regular buffer, also one without samples, can be interleaved, and its
samples become the same buffer again. -/
theorem interleaving_inverse :
    (∀ (samples : List Sample) (layout : Layout) (rate : UInt32),
      (samples.length % layout.channelCount = 0 →
        ∃ b, ofInterleaved samples layout rate = .ok b ∧ b.layoutFault? = none ∧
          b.layout? = some layout ∧ b.rate = rate ∧ b.IsInterleaving samples ∧
          b.interleaved? = some samples) ∧
      (samples.length % layout.channelCount ≠ 0 →
        ofInterleaved samples layout rate =
          .error (.incompleteFrame samples.length layout.channelCount))) ∧
    ∀ b : Buffer, b.IsRegular →
      ∃ samples layout, b.interleaved? = some samples ∧
        samples.length = b.channels.length * b.length ∧ b.IsInterleaving samples ∧
        b.layout? = some layout ∧ ofInterleaved samples layout b.rate = .ok b := by
  refine ⟨fun samples layout rate => ⟨fun heven => ?_, fun h => ofInterleaved_of_uneven h rate⟩,
    fun b hb => ?_⟩
  · obtain ⟨b, hb⟩ := exists_ofInterleaved heven rate
    have hregular := isRegular_of_ofInterleaved hb
    obtain ⟨hsamples, hrate, hcount⟩ := interleaved_of_ofInterleaved hb
    exact ⟨b, hb, layoutFault?_eq_none_iff.mpr hregular, Layout.ofCount?_eq_some_iff.mpr hcount,
      hrate, isInterleaving_of_interleaved hregular hsamples, hsamples⟩
  · have hsamples := interleaved_eq hb
    have hinterleaving := isInterleaving_of_interleaved hb hsamples
    obtain ⟨layout, hlayout, hdealt⟩ := ofInterleaved_of_interleaved hb hsamples
    exact ⟨_, layout, hsamples, hinterleaving.length, hinterleaving, hlayout, hdealt⟩

/-- Three moments of two channels, a list that does not come out even, and a buffer without
samples. -/
theorem interleaving_inverse_threeMoments :
    let samples : List Sample := [⟨1⟩, ⟨5⟩, ⟨2⟩, ⟨6⟩, ⟨3⟩, ⟨7⟩]
    let b : Buffer := ⟨[[⟨1⟩, ⟨2⟩, ⟨3⟩], [⟨5⟩, ⟨6⟩, ⟨7⟩]], 44100⟩
    samples.length % Layout.stereo.channelCount = 0 ∧
    ofInterleaved samples .stereo 44100 = .ok b ∧ b.layoutFault? = none ∧
    b.IsInterleaving samples ∧ b.interleaved? = some samples ∧
    (samples.take 3).length % Layout.stereo.channelCount ≠ 0 ∧
    ofInterleaved (samples.take 3) .stereo 44100 = .error (.incompleteFrame 3 2) ∧
    empty.IsRegular ∧ empty.interleaved? = some [] ∧
    ofInterleaved [] .stereo defaultRate = .ok empty := by
  intro samples b
  obtain ⟨hlists, hbuffers⟩ := interleaving_inverse
  have heven : samples.length % Layout.stereo.channelCount = 0 := by decide
  have huneven : (samples.take 3).length % Layout.stereo.channelCount ≠ 0 := by decide
  have hregular : empty.IsRegular := ⟨.inr rfl, by decide⟩
  obtain ⟨b', hb', hlayout, -, -, hinterleaving, hsamples⟩ := (hlists samples .stereo 44100).1 heven
  have hdealt : ofInterleaved samples .stereo 44100 = .ok b := by decide
  obtain rfl : b = b' := Except.ok.inj (hdealt.symm.trans hb')
  obtain ⟨few, layout, hfew, hlength, -, hstereo, hempty⟩ := hbuffers empty hregular
  obtain rfl := List.eq_nil_of_length_eq_zero hlength
  cases hstereo
  exact ⟨heven, hdealt, hlayout, hinterleaving, hsamples, huneven,
    (hlists (samples.take 3) .stereo 44100).2 huneven, hregular, hfew, hempty⟩

end Buffer

end Remix
