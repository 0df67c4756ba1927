import Mathlib.Tactic.Common
import Remix.Proofs.SinglePrecision
import Remix.Wave.Reader
import Remix.Wave.Writer

/-!
# Whole numbers as samples

A whole number of 16 or 24 bits is a sample without loss: a number of single precision has room for
it, and full scale is a power of two. On the way back full scale is less by one, and what is behind
the point is dropped. So every whole number but 0 comes back one step nearer to 0.
-/

namespace Remix.Wave

open Single Float.Model.UnpackedFloat

lemma wholePart_of_isNormal {x : Float32} {s : Sign} {m k : Nat}
    (hx : IsNormal x s m (-(k : Int))) : wholePart x = s.apply (m / 2 ^ k : Nat) := by
  unfold wholePart
  cases s with
  | negative =>
    rw [if_pos (hx.lt_zero_iff.mpr rfl), IsNormal.toUInt32_eq hx.neg]
    rfl
  | positive =>
    rw [if_neg (hx.lt_zero_iff.not.mpr nofun), hx.toUInt32_eq]
    rfl

/-- Full scale for whole numbers of 16 and of 24 bits, when they are read and when they are
written. -/
lemma isNormal_scale {d : Nat} (h : d = 15 ∨ d = 23) :
    IsNormal (Float32.ofNat (Nat.pow 2 d)) .positive (2 ^ 23) (d - 23) ∧
      IsNormal (Float32.ofNat (Nat.pow 2 d - 1)) .positive (2 ^ 24 - 2 ^ (24 - d)) (d - 24) := by
  rcases h with rfl | rfl
  · exact ⟨⟨by decide, by decide, by decide, by decide, by decide, by rfl⟩,
      ⟨by decide, by decide, by decide, by decide, by decide, by rfl⟩⟩
  · exact ⟨⟨by decide, by decide, by decide, by decide, by decide, by rfl⟩,
      ⟨by decide, by decide, by decide, by decide, by decide, by rfl⟩⟩

/-- What is less than full scale by a little is rounded to what is less than it is by a little. -/
lemma near_below {m p q r : Nat} (hlower : 2 ^ 23 < m) (hupper : m < 2 ^ 24) (hp : 0 < p)
    (hpq : p ≤ q) (hq : q ≤ 2 ^ 24) (hle : 2 * (m * (2 ^ 24 - p)) ≤ 2 * (r * 2 ^ 24) + 2 ^ 24)
    (hge : 2 * (r * 2 ^ 24) ≤ 2 * (m * (2 ^ 24 - p)) + 2 ^ 24) : r < m ∧ m ≤ r + q := by
  have hpart : m * p ≤ (2 ^ 24 - 1) * q := Nat.mul_le_mul (by omega) hpq
  have hwhole : m ≤ m * p := Nat.le_mul_of_pos_right m hp
  rw [Nat.mul_sub] at hle hge
  omega

lemma wholePart_mul_scale {x y : Float32} {s : Sign} {n l d : Nat} (hl : n.log2 = l) (hd : 0 < d)
    (hd' : d ≤ 23) (hpos : 0 < n) (hn : n ≤ 2 ^ d)
    (hx : IsNormal x s (n * 2 ^ (23 - l)) (l - 23 - d))
    (hy : IsNormal y .positive (2 ^ 24 - 2 ^ (24 - d)) (d - 24)) :
    wholePart (x * y) = s.apply (n - 1 : Nat) := by
  obtain ⟨hself, hlt⟩ := (Nat.log2_eq_iff (Nat.ne_of_gt hpos)).mp hl
  have hld : l ≤ d := (Nat.pow_le_pow_iff_right (by decide)).mp (hself.trans hn)
  have hfull : 2 ^ l * 2 ^ (23 - l) = 2 ^ 23 := by
    rw [← Nat.pow_add]
    congr 1
    omega
  have hsign : s * .positive = s := by cases s <;> rfl
  have hlower := hx.lower
  have hupper := hx.upper
  have hlowest := Nat.two_pow_pos (24 - d)
  rcases Nat.eq_or_lt_of_le hself with heq | hgt
  · -- A power of two: the product is exact.
    have hm : n * 2 ^ (23 - l) = 2 ^ 23 := by rw [← heq, hfull]
    have hpart : 2 ^ (24 - d) ≤ 2 ^ (24 - l) := Nat.pow_le_pow_right (by decide) (by omega)
    have hhalf : 2 ^ (24 - d) ≤ 2 ^ 23 := Nat.pow_le_pow_right (by decide) (by omega)
    have hround : (shifted (n * 2 ^ (23 - l) * (2 ^ 24 - 2 ^ (24 - d))) 23).roundedMantissa =
        2 ^ 24 - 2 ^ (24 - d) := by
      rw [hm, Nat.mul_comm, rounded_mul_two_pow]
    have hplace : (l : Int) - 23 - d + (d - 24) + (23 : Nat) = -((24 - l : Nat) : Int) := by omega
    have hproduct := hx.mul hy (k := 23) (by rw [hm]; omega) (by rw [hm]; omega) (by omega)
      (by omega) (by rw [hround]; omega)
    rw [hround, hplace, hsign] at hproduct
    rw [wholePart_of_isNormal hproduct]
    congr 2
    have hwhole : n * 2 ^ (24 - l) = 2 ^ 24 := by
      rw [← heq, ← Nat.pow_add]
      congr 1
      omega
    apply Nat.div_eq_of_lt_le
    · rw [Nat.sub_mul]
      omega
    · rw [Nat.sub_add_cancel hpos]
      omega
  · -- Otherwise the product has one digit more, and rounding does not make up for what is lost.
    have hld' : l < d := (Nat.pow_lt_pow_iff_right (by decide)).mp (hgt.trans_le hn)
    have hpart : 2 ^ (24 - d) ≤ 2 ^ (23 - l) := Nat.pow_le_pow_right (by decide) (by omega)
    have hunit : 2 ^ (23 - l) ≤ 2 ^ 23 := Nat.pow_le_pow_right (by decide) (by omega)
    have hm : 2 ^ 23 + 2 ^ (23 - l) ≤ n * 2 ^ (23 - l) := by
      have hmul := Nat.mul_le_mul_right (2 ^ (23 - l)) hgt
      rwa [Nat.succ_mul, hfull] at hmul
    obtain ⟨hnear, hnear'⟩ := near_rounded (n * 2 ^ (23 - l) * (2 ^ 24 - 2 ^ (24 - d))) 24
    obtain ⟨hbelow, habove⟩ := near_below (by omega) hupper hlowest hpart (by omega) hnear hnear'
    have hlarge : 2 ^ (23 + 24) ≤ n * 2 ^ (23 - l) * (2 ^ 24 - 2 ^ (24 - d)) := by
      have hloss := Nat.mul_le_mul hupper.le hpart
      rw [Nat.mul_sub]
      omega
    have hsmall : n * 2 ^ (23 - l) * (2 ^ 24 - 2 ^ (24 - d)) < 2 ^ (24 + 24) := by
      have hmul := Nat.mul_lt_mul_of_lt_of_le hupper (Nat.sub_le (2 ^ 24) (2 ^ (24 - d)))
        (by decide : 0 < 2 ^ 24)
      omega
    have hplace : (l : Int) - 23 - d + (d - 24) + (24 : Nat) = -((23 - l : Nat) : Int) := by omega
    have hproduct := hx.mul hy (k := 24) hlarge hsmall (by omega) (by omega) (by omega)
    rw [hplace, hsign] at hproduct
    rw [wholePart_of_isNormal hproduct]
    congr 2
    apply Nat.div_eq_of_lt_le
    · rw [Nat.sub_mul]
      omega
    · rw [Nat.sub_add_cancel hpos]
      exact hbelow

/-- A whole number one step nearer to zero. -/
def towardZero (v : Int) : Int := v - v.sign

lemma isNormal_floatOfWhole {v : Int} (hv : v ≠ 0) (hlt : v.natAbs < 2 ^ 24) :
    IsNormal (floatOfWhole v) (if v < 0 then .negative else .positive)
      (v.natAbs * 2 ^ (23 - v.natAbs.log2)) (v.natAbs.log2 - 23) := by
  have hsize := isNormal_toFloat32 (Int.natAbs_pos.mpr hv) hlt
  unfold floatOfWhole
  dsimp only
  by_cases hneg : v < 0
  · rw [if_pos hneg, if_pos hneg]
    exact hsize.neg
  · rw [if_neg hneg, if_neg hneg]
    exact hsize

/-- The quotient that a sample is, if it is read from a whole number. -/
lemma isNormal_ofWhole {bits : Nat} (hbits : bits = 16 ∨ bits = 24) {v : Int} (hzero : v ≠ 0)
    (hv : v.natAbs ≤ 2 ^ (bits - 1)) :
    IsNormal (floatOfWhole v / Float32.ofNat (Nat.pow 2 (bits - 1)))
      (if v < 0 then .negative else .positive) (v.natAbs * 2 ^ (23 - v.natAbs.log2))
      (v.natAbs.log2 - 23 - (bits - 1 : Nat)) := by
  have hlt : v.natAbs < 2 ^ 24 := by
    have hmono := Nat.pow_le_pow_right (by decide : 0 < 2) (by omega : bits - 1 ≤ 23)
    omega
  have hlog : v.natAbs.log2 ≤ bits - 1 :=
    (Nat.pow_le_pow_iff_right (by decide)).mp ((Nat.log2_self_le (by omega)).trans hv)
  have hquotient := (isNormal_floatOfWhole hzero hlt).div_two_pow
    (isNormal_scale (by omega : bits - 1 = 15 ∨ bits - 1 = 23)).1 (by omega) (by omega)
  have hplace : (v.natAbs.log2 : Int) - 23 - ((bits - 1 : Nat) - 23) - 23 =
      v.natAbs.log2 - 23 - (bits - 1 : Nat) := by omega
  have hsign (s : Sign) : s / .positive = s := by cases s <;> rfl
  rwa [hplace, hsign] at hquotient

/-- A whole number that is read as a sample is one step nearer to zero when it is written. -/
lemma quantize_ofWhole {bits : Nat} (hbits : bits = 16 ∨ bits = 24) {v : Int}
    (hv : v.natAbs ≤ 2 ^ (bits - 1)) : quantize bits (ofWhole bits v).value = towardZero v := by
  by_cases hzero : v = 0
  · subst hzero
    rcases hbits with rfl | rfl <;> rfl
  · have hsample := isNormal_ofWhole hbits hzero hv
    have hvalue : (ofWhole bits v).value =
        floatOfWhole v / Float32.ofNat (Nat.pow 2 (bits - 1)) := hsample.value_ofComputed
    have hwhole := wholePart_mul_scale rfl (by omega) (by omega) (Int.natAbs_pos.mpr hzero) hv
      hsample (isNormal_scale (by omega : bits - 1 = 15 ∨ bits - 1 = 23)).2
    have hhalf : (Nat.pow 2 (bits - 1) : Nat) = 2 ^ (bits - 1) := rfl
    unfold quantize
    dsimp only
    rw [hvalue, hwhole, hhalf, towardZero]
    rcases Int.lt_or_gt_of_ne hzero with hneg | hpos
    · rw [if_pos hneg, Int.sign_eq_neg_one_of_neg hneg, Sign.apply]
      omega
    · rw [if_neg hpos.not_gt, Int.sign_eq_one_of_pos hpos, Sign.apply]
      omega

/-- A sample that is read from a whole number is a sum with silence. -/
lemma zero_add_ofWhole {bits : Nat} (hbits : bits = 16 ∨ bits = 24) {v : Int}
    (hv : v.natAbs ≤ 2 ^ (bits - 1)) : 0 + ofWhole bits v = ofWhole bits v := by
  by_cases hzero : v = 0
  · subst hzero
    rcases hbits with rfl | rfl <;> decide
  · exact (isNormal_ofWhole hbits hzero hv).zero_add_ofComputed

lemma natAbs_towardZero_le (v : Int) : (towardZero v).natAbs ≤ v.natAbs := by
  unfold towardZero
  rcases Int.lt_trichotomy v 0 with h | rfl | h
  · rw [Int.sign_eq_neg_one_of_neg h]
    omega
  · rfl
  · rw [Int.sign_eq_one_of_pos h]
    omega

/-- Only silence is the same sample one step nearer to zero. -/
lemma ofWhole_towardZero_iff {bits : Nat} (hbits : bits = 16 ∨ bits = 24) {v : Int}
    (hv : v.natAbs ≤ 2 ^ (bits - 1)) : ofWhole bits (towardZero v) = ofWhole bits v ↔ v = 0 := by
  constructor
  · intro h
    have hsame : towardZero (towardZero v) = towardZero v := by
      rw [← quantize_ofWhole hbits ((natAbs_towardZero_le v).trans hv), h,
        quantize_ofWhole hbits hv]
    have hsign : (towardZero v).sign = 0 := by
      rw [towardZero] at hsame
      omega
    have hzero : towardZero v = 0 := Int.sign_eq_zero_iff_zero.mp hsign
    by_contra hv0
    rw [hzero] at h
    rcases Int.lt_or_gt_of_ne hv0 with hneg | hpos
    · have hone : v = -1 := by
        rw [towardZero, Int.sign_eq_neg_one_of_neg hneg] at hzero
        omega
      subst hone
      revert h
      rcases hbits with rfl | rfl <;> decide +kernel
    · have hone : v = 1 := by
        rw [towardZero, Int.sign_eq_one_of_pos hpos] at hzero
        omega
      subst hone
      revert h
      rcases hbits with rfl | rfl <;> decide +kernel
  · rintro rfl
    rfl

end Remix.Wave
