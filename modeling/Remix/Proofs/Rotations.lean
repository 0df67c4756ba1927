import Mathlib.Data.Int.ModEq
import Mathlib.Data.List.Rotate
import Mathlib.Tactic.Common
import Remix.Proofs.Shapes

/-!
# Time shifts as rotations

A time shift turns every channel round, and only what is left of its offset by the length of the
channel matters. So two shifts in turn are a shift by the sum of their offsets, and a shift to an
earlier time takes back one to a later time, also where both are cut to the largest shift there is.
-/

namespace Remix

/-- The samples `ys` are `xs` turned round: each of them is `offset` places later, counted on from
the front behind the end, and from the end before the front. -/
def IsTurned {α : Type} (offset : Int) (xs ys : List α) : Prop :=
  ys.length = xs.length ∧
    ∀ i (hi : i < xs.length), ys[((i + offset) % xs.length).toNat]? = some xs[i]

/-- The buffer `c` is `b` with every channel turned by one offset. -/
structure Buffer.IsShifted (offset : Int) (b c : Buffer) : Prop where
  rate : c.rate = b.rate
  channels : List.Forall₂ (IsTurned offset) b.channels c.channels

namespace TimeShift

lemma offset_early (samples : Nat) : (early samples).offset = -(late samples).offset := by
  simp only [early, late]
  omega

section Turn

variable {α : Type} (t : TimeShift) {n : Nat} {xs : List α}

/-- A turn to the right by the offset is a turn to the left by what it lacks of a round. -/
lemma sub_turn_modEq (hn : 0 < n) : ((n - t.turn n : Nat) : Int) ≡ -t.offset [ZMOD n] := by
  have hnonneg := Int.emod_nonneg t.offset (Int.natCast_ne_zero_iff_pos.mpr hn)
  have hturn : (t.turn n : Int) ≡ t.offset [ZMOD n] := by
    rw [turn, Int.toNat_of_nonneg hnonneg]
    exact Int.mod_modEq _ _
  rw [Nat.cast_sub (t.turn_lt hn).le, ← zero_sub]
  exact (Int.modEq_zero_iff_dvd.mpr (dvd_refl _)).sub hturn

lemma rotate_eq_of_modEq {k l : Nat} (h : (k : Int) ≡ l [ZMOD xs.length]) :
    xs.rotate k = xs.rotate l := by
  have hmod : k % xs.length = l % xs.length := Int.natCast_modEq_iff.mp h
  rw [← List.rotate_mod, hmod, List.rotate_mod]

lemma rotateRight_eq_rotate (k : Nat) : rotateRight k xs = xs.rotate (xs.length - k) :=
  (List.rotate_eq_drop_append_take (Nat.sub_le _ _)).symm

lemma isTurned_rotateRight (hxs : xs.length = n) (hn : 0 < n) :
    IsTurned t.offset xs (rotateRight (t.turn n) xs) := by
  subst hxs
  have hpos : (0 : Int) < xs.length := Int.natCast_pos.mpr hn
  refine ⟨length_rotateRight _ _, fun i hi => ?_⟩
  have hnonneg := Int.emod_nonneg (i + t.offset) hpos.ne'
  have hlt := Int.emod_lt_of_pos (i + t.offset) hpos
  rw [rotateRight_eq_rotate, List.getElem?_rotate (by omega)]
  have hback : ((i + t.offset) % xs.length).toNat + (xs.length - t.turn xs.length) ≡ i
      [MOD xs.length] := by
    rw [← Int.natCast_modEq_iff, Nat.cast_add, Int.toNat_of_nonneg hnonneg]
    have hsum := (Int.mod_modEq (i + t.offset) xs.length).add (t.sub_turn_modEq hn)
    rwa [add_neg_cancel_right] at hsum
  have hindex : (((i + t.offset) % xs.length).toNat + (xs.length - t.turn xs.length)) %
      xs.length = i := Nat.mod_eq_of_modEq hback hi
  rw [hindex, List.getElem?_eq_getElem hi]

/-- Two turns are one by the sum of their offsets. -/
lemma rotateRight_rotateRight {x y z : TimeShift} (hxs : xs.length = n) (hn : 0 < n)
    (h : z.offset ≡ x.offset + y.offset [ZMOD n]) :
    rotateRight (y.turn n) (rotateRight (x.turn n) xs) = rotateRight (z.turn n) xs := by
  subst hxs
  rw [rotateRight_eq_rotate, rotateRight_eq_rotate, rotateRight_eq_rotate, List.length_rotate,
    List.rotate_rotate]
  apply rotate_eq_of_modEq
  calc ((xs.length - x.turn xs.length + (xs.length - y.turn xs.length) : Nat) : Int)
      = (xs.length - x.turn xs.length : Nat) + (xs.length - y.turn xs.length : Nat) :=
        Nat.cast_add _ _
    _ ≡ -x.offset + -y.offset [ZMOD xs.length] := (x.sub_turn_modEq hn).add (y.sub_turn_modEq hn)
    _ = -(x.offset + y.offset) := (neg_add _ _).symm
    _ ≡ -z.offset [ZMOD xs.length] := h.symm.neg
    _ ≡ (xs.length - z.turn xs.length : Nat) [ZMOD xs.length] := (z.sub_turn_modEq hn).symm

lemma rotateRight_of_dvd (h : (n : Int) ∣ t.offset) : rotateRight (t.turn n) xs = xs := by
  have hzero : t.turn n = 0 := by rw [turn, Int.emod_eq_zero_of_dvd h, Int.toNat_zero]
  rw [hzero, rotateRight_eq_rotate, Nat.sub_zero, List.rotate_length]

end Turn

section Buffers

variable {b : Buffer} {n : Nat}

/-- A shift of channels of one length turns each of them. -/
lemma apply_eq (t : TimeShift) (hn : 0 < n) (hb : ∀ c ∈ b.channels, c.length = n) :
    t.apply b = .ok { b with channels := b.channels.map (rotateRight (t.turn n)) } := by
  obtain ⟨channels, rate⟩ := b
  cases channels with
  | nil => rfl
  | cons first rest =>
    have hlength : Buffer.length ⟨first :: rest, rate⟩ = n := hb first List.mem_cons_self
    have hsome : Buffer.isEmpty ⟨first :: rest, rate⟩ = false := by
      rw [Buffer.isEmpty, hlength]
      exact decide_eq_false hn.ne'
    have hlong : (first :: rest).find? (·.length < t.turn n) = none := by
      rw [List.find?_eq_none]
      intro c hc
      rw [hb c hc, decide_eq_true_iff]
      exact Nat.not_lt_of_lt (t.turn_lt hn)
    unfold apply
    rw [hsome, hlength]
    dsimp only
    rw [hlong]
    rfl

lemma exists_isShifted (t : TimeShift) (hn : 0 < n) (hb : ∀ c ∈ b.channels, c.length = n) :
    ∃ c, t.apply b = .ok c ∧ b.IsShifted t.offset c := by
  refine ⟨_, t.apply_eq hn hb, rfl, List.forall₂_map_right_iff.mpr ?_⟩
  exact List.forall₂_same.mpr fun c hc => t.isTurned_rotateRight (hb c hc) hn

/-- Two shifts in turn are one by the sum of their offsets. -/
lemma apply_apply {x y z : TimeShift} (hn : 0 < n) (hb : ∀ c ∈ b.channels, c.length = n)
    (h : z.offset ≡ x.offset + y.offset [ZMOD n]) : (x.apply b >>= y.apply) = z.apply b := by
  have hx : ∀ c ∈ b.channels.map (rotateRight (x.turn n)), c.length = n := by
    intro c hc
    obtain ⟨c', hc', rfl⟩ := List.mem_map.mp hc
    rw [length_rotateRight, hb c' hc']
  rw [x.apply_eq hn hb, z.apply_eq hn hb]
  change y.apply _ = _
  rw [y.apply_eq hn hx, List.map_map]
  refine congrArg (fun channels => Except.ok (Buffer.mk channels b.rate)) ?_
  exact List.map_congr_left fun c hc => rotateRight_rotateRight (hb c hc) hn h

lemma apply_of_dvd (t : TimeShift) (hn : 0 < n) (hb : ∀ c ∈ b.channels, c.length = n)
    (h : (n : Int) ∣ t.offset) : t.apply b = .ok b := by
  rw [t.apply_eq hn hb, List.map_congr_left fun _ _ => t.rotateRight_of_dvd h, List.map_id'']
  exact fun _ => rfl

/-- Two shifts with opposite offsets leave everything where it was. -/
lemma apply_apply_of_neg {x y : TimeShift} (hn : 0 < n) (hb : ∀ c ∈ b.channels, c.length = n)
    (h : y.offset = -x.offset) : (x.apply b >>= y.apply) = .ok b := by
  have hzero : (⟨0⟩ : TimeShift).offset ≡ x.offset + y.offset [ZMOD n] := by
    rw [h, add_neg_cancel]
  rw [apply_apply hn hb hzero]
  exact apply_of_dvd _ hn hb (dvd_zero _)

end Buffers

end TimeShift

/-- The shifts of accepted settings are as far as the settings say. -/
lemma Settings.shifts_of_validate {settings accepted : Settings}
    (h : settings.validate = .ok accepted) :
    accepted.bank.apply .late = TimeShift.apply ⟨accepted.timeShift⟩ ∧
      accepted.bank.apply .early = TimeShift.apply ⟨-accepted.timeShift⟩ := by
  have hshift : (min accepted.timeShift maxShift : Int) = accepted.timeShift := by
    unfold validate fault? at h
    by_cases hlong : maxShift < settings.timeShift
    · rw [if_pos hlong] at h
      cases h
    · split at h
      · cases h
      · cases h
        omega
  have hlate : TimeShift.late accepted.timeShift = ⟨accepted.timeShift⟩ :=
    congrArg TimeShift.mk hshift
  have hearly : TimeShift.early accepted.timeShift = ⟨-accepted.timeShift⟩ := by
    rw [TimeShift.mk.injEq, TimeShift.offset_early, hlate]
  rw [← hlate, ← hearly]
  exact ⟨rfl, rfl⟩

/-- A time shift of a buffer whose channels have one length turns every channel by its offset, and
two of them in turn are one by the sum of their offsets, of which only the rest by that length
matters. So shifts to an earlier and to a later time by the same number of samples take each other
back, however large it is. The actions of a render shift as far as its settings say. -/
theorem timeShift_turns (b : Buffer) (n : Nat) (hn : 0 < n) (hb : ∀ c ∈ b.channels, c.length = n) :
    (∀ offset : Int, ∃ c, (TimeShift.mk offset).apply b = .ok c ∧ b.IsShifted offset c) ∧
    (∀ x y z : Int, z ≡ x + y [ZMOD n] →
      ((TimeShift.mk x).apply b >>= (TimeShift.mk y).apply) = (TimeShift.mk z).apply b) ∧
    (∀ samples : Nat,
      ((TimeShift.early samples).apply b >>= (TimeShift.late samples).apply) = .ok b ∧
      ((TimeShift.late samples).apply b >>= (TimeShift.early samples).apply) = .ok b) ∧
    ∀ settings accepted : Settings, settings.validate = .ok accepted →
      ∃ later earlier, accepted.bank.apply .late b = .ok later ∧
        b.IsShifted accepted.timeShift later ∧
        accepted.bank.apply .early b = .ok earlier ∧
        b.IsShifted (-accepted.timeShift) earlier := by
  refine ⟨fun offset => TimeShift.exists_isShifted ⟨offset⟩ hn hb,
    fun x y z h => TimeShift.apply_apply hn hb h, fun samples => ⟨?_, ?_⟩, ?_⟩
  · exact TimeShift.apply_apply_of_neg hn hb (by rw [TimeShift.offset_early, neg_neg])
  · exact TimeShift.apply_apply_of_neg hn hb (TimeShift.offset_early samples)
  · intro settings accepted hvalid
    obtain ⟨hlate, hearly⟩ := Settings.shifts_of_validate hvalid
    obtain ⟨later, hlater, hshifted⟩ :=
      TimeShift.exists_isShifted ⟨accepted.timeShift⟩ hn hb
    obtain ⟨earlier, hearlier, hshifted'⟩ :=
      TimeShift.exists_isShifted ⟨-accepted.timeShift⟩ hn hb
    exact ⟨later, earlier, hlate ▸ hlater, hshifted, hearly ▸ hearlier, hshifted'⟩

/-- Two channels of three samples: offsets beyond a round, and a shift that is longer than any. -/
theorem timeShift_turns_twoChannels :
    let b : Buffer := ⟨[[⟨1⟩, ⟨2⟩, ⟨3⟩], [⟨4⟩, ⟨5⟩, ⟨6⟩]], 8000⟩
    (∀ c ∈ b.channels, c.length = 3) ∧
    (TimeShift.mk (-4)).apply b = .ok ⟨[[⟨2⟩, ⟨3⟩, ⟨1⟩], [⟨5⟩, ⟨6⟩, ⟨4⟩]], 8000⟩ ∧
    b.IsShifted (-4) ⟨[[⟨2⟩, ⟨3⟩, ⟨1⟩], [⟨5⟩, ⟨6⟩, ⟨4⟩]], 8000⟩ ∧
    ((TimeShift.mk 7).apply b >>= (TimeShift.mk (-2)).apply) = (TimeShift.mk (-1)).apply b ∧
    ((TimeShift.early (2 ^ 63)).apply b >>= (TimeShift.late (2 ^ 63)).apply) = .ok b ∧
    ∃ later, ({ timeShift := 5 } : Settings).bank.apply .late b = .ok later ∧
      b.IsShifted 5 later := by
  intro b
  have hb : ∀ c ∈ b.channels, c.length = 3 := by decide
  obtain ⟨hshift, hsum, hback, hsettings⟩ := timeShift_turns b 3 (by decide) hb
  obtain ⟨c, hc, hshifted⟩ := hshift (-4)
  have hcomputed : (TimeShift.mk (-4)).apply b =
      .ok ⟨[[⟨2⟩, ⟨3⟩, ⟨1⟩], [⟨5⟩, ⟨6⟩, ⟨4⟩]], 8000⟩ := by decide
  rw [hcomputed] at hc
  cases hc
  obtain ⟨later, -, hlater, hlate, -, -⟩ :=
    hsettings { timeShift := 5 } { timeShift := 5 } (by decide)
  exact ⟨hb, hcomputed, hshifted, hsum 7 (-2) (-1) (by decide), (hback (2 ^ 63)).1, later, hlater,
    hlate⟩

end Remix
