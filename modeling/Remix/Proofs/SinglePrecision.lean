import Mathlib
import Remix.Audio.Sample

/-!
# Numbers of single precision

A number of single precision that is not too small has 24 digits, the first of which is not 0, and a
place for the last one. Products, quotients by powers of two, sums with 0 and conversions from and
to whole numbers are told by the digits and the place of what they give. Rounding is to the nearest
whole number of units of the last place. The lemmas on the bits of these numbers come with the whole
library only, and with none of its parts.
-/

namespace Remix.Single

open Float.Model (Format UnpackedFloat totalExponent)
open Float.Model.UnpackedFloat

/-- What the two bits that a shift keeps tell of the rest that it drops, which is less than a
unit. -/
def Tells (unit rest : Nat) : Bool → Bool → Prop
  | false, false => rest = 0
  | false, true => 0 < rest ∧ 2 * rest < unit
  | true, false => 2 * rest = unit
  | true, true => unit < 2 * rest

/-- A whole number shifted to the right. -/
def shifted (n k : Nat) : ExtendedMantissa :=
  ExtendedMantissa.ofMantissaAndAccuracy n .exact >>> k

lemma shifted_succ (n k : Nat) :
    shifted n (k + 1) = ExtendedMantissa.shiftRightOne (shifted n k) :=
  rfl

lemma exists_rest (n k : Nat) : ∃ rest, rest < 2 ^ k ∧
    n = (shifted n k).mantissa * 2 ^ k + rest ∧
    Tells (2 ^ k) rest (shifted n k).roundBit (shifted n k).stickyBit := by
  induction k with
  | zero => exact ⟨0, by decide, (Nat.mul_one n).symm, rfl⟩
  | succ k ih =>
    obtain ⟨rest, hrest, hn, htells⟩ := ih
    rw [shifted_succ]
    generalize shifted n k = em at hn htells
    obtain ⟨m, last, others⟩ := em
    dsimp only at hn htells
    refine ⟨m % 2 * 2 ^ k + rest, ?_, ?_, ?_⟩
    · rcases Nat.mod_two_eq_zero_or_one m with hm | hm <;> rw [hm, Nat.pow_succ] <;> omega
    · have hm : m * 2 ^ k = (m / 2 * 2 + m % 2) * 2 ^ k := by rw [Nat.div_add_mod']
      rw [ExtendedMantissa.shiftRightOne, hn, hm]
      ring
    · unfold ExtendedMantissa.shiftRightOne
      dsimp only
      rcases Nat.mod_two_eq_zero_or_one m with hm | hm <;> rw [hm, Nat.pow_succ] <;>
        cases last <;> cases others <;> simp only [Tells] at htells <;>
        simp [Tells] <;> omega

lemma mantissa_shifted (n k : Nat) : (shifted n k).mantissa = n / 2 ^ k := by
  obtain ⟨rest, hrest, hn, -⟩ := exists_rest n k
  exact (Nat.div_eq_of_lt_le (by omega) (by rw [Nat.succ_mul]; omega)).symm

/-- Rounding takes the nearest whole number. -/
lemma near_rounded (n k : Nat) :
    2 * n ≤ 2 * ((shifted n k).roundedMantissa * 2 ^ k) + 2 ^ k ∧
      2 * ((shifted n k).roundedMantissa * 2 ^ k) ≤ 2 * n + 2 ^ k := by
  obtain ⟨rest, hrest, hn, htells⟩ := exists_rest n k
  generalize shifted n k = em at hn htells
  obtain ⟨m, last, others⟩ := em
  have hparity := Nat.mod_two_eq_zero_or_one m
  have hsucc : (m + 1) * 2 ^ k = m * 2 ^ k + 2 ^ k := Nat.succ_mul m (2 ^ k)
  dsimp only at hn htells
  cases last <;> cases others <;>
    simp only [ExtendedMantissa.roundedMantissa, ExtendedMantissa.accuracy,
      Accuracy.roundToNearestEven, Tells] at htells ⊢
  · omega
  · omega
  · rcases hparity with hm | hm
    · rw [hm, Nat.add_zero]
      omega
    · rw [hm]
      omega
  · omega

lemma rounded_mul_two_pow (m k : Nat) : (shifted (m * 2 ^ k) k).roundedMantissa = m := by
  obtain ⟨hle, hge⟩ := near_rounded (m * 2 ^ k) k
  have hpos := Nat.two_pow_pos k
  rcases Nat.lt_trichotomy (shifted (m * 2 ^ k) k).roundedMantissa m with h | h | h
  · have hmul := Nat.mul_le_mul_right (2 ^ k) h
    rw [Nat.succ_mul] at hmul
    omega
  · exact h
  · have hmul := Nat.mul_le_mul_right (2 ^ k) h
    rw [Nat.succ_mul] at hmul
    omega

/-- What has 24 digits and more is shifted until it has 24. -/
lemma shiftToTargetExponent_eq {n k : Nat} {e : Int} (hn : n.log2 = 23 + k) (he : -149 ≤ e + k) :
    shiftToTargetExponent .binary32 n e .exact = (shifted n k, e + k) := by
  have htarget : Format.binary32.targetExponent (totalExponent n e) = e + k := by
    simp only [Format.targetExponent, totalExponent, Format.mantissaBits, Format.minExponent, hn]
    omega
  have hshift : (e + k - e).toNat = k := by omega
  unfold shiftToTargetExponent
  rw [htarget]
  unfold shiftToExponent
  dsimp only
  rw [hshift]
  rfl

lemma le_rounded {n k : Nat} (hn : 2 ^ (23 + k) ≤ n) : 2 ^ 23 ≤ (shifted n k).roundedMantissa := by
  obtain ⟨hnear, -⟩ := near_rounded n k
  have hpos := Nat.two_pow_pos k
  rw [Nat.pow_add] at hn
  by_contra hsmall
  have hmul := Nat.mul_le_mul_right (2 ^ k) (Nat.le_of_lt_succ (Nat.lt_of_not_le hsmall))
  omega

lemma roundWithAccuracy_eq {n k : Nat} {e : Int} (hlower : 2 ^ (23 + k) ≤ n)
    (hupper : n < 2 ^ (24 + k)) (he : -149 ≤ e + k) (s : Sign)
    (hr : (shifted n k).roundedMantissa < 2 ^ 24) :
    ∃ hpos, roundWithAccuracy .binary32 s n e .exact =
      .finite s (shifted n k).roundedMantissa (e + k) hpos := by
  have hle := le_rounded hlower
  have hpos : 0 < (shifted n k).roundedMantissa := by omega
  have hne : n ≠ 0 := Nat.ne_of_gt ((Nat.two_pow_pos _).trans_le hlower)
  have hn : n.log2 = 23 + k := (Nat.log2_eq_iff hne).mpr ⟨hlower, by rwa [Nat.add_right_comm]⟩
  have hlog : (shifted n k).roundedMantissa.log2 = 23 + 0 :=
    (Nat.log2_eq_iff (by omega)).mpr ⟨hle, hr⟩
  refine ⟨hpos, ?_⟩
  unfold roundWithAccuracy
  rw [shiftToTargetExponent_eq hn he]
  dsimp only
  rw [shiftToTargetExponent_eq hlog (by omega)]
  have hsame (r : Nat) : (shifted r 0).mantissa = r := rfl
  simp only [hsame]
  rw [dif_neg (Nat.ne_of_gt hpos), Nat.cast_zero, Int.add_zero]

/-- A number by its 24 digits and the place of the last one. -/
structure IsNormal (x : Float32) (s : Sign) (m : Nat) (e : Int) : Prop where
  lower : 2 ^ 23 ≤ m
  upper : m < 2 ^ 24
  least : -149 ≤ e
  greatest : e ≤ 104
  eq : ∃ hpos, x = .ofModel (.pack (.finite s m e hpos))

lemma bias_eq : ((Format.binary32.exponentBias : Nat) : Int) = 127 := rfl

lemma pack_eq {s : Sign} {m b : Nat} {e : Int} (hpos : 0 < m) (hlower : 2 ^ 23 ≤ m)
    (hupper : m < 2 ^ 24) (hb : b = e + 150) (hgreatest : e ≤ 104) :
    pack .binary32 (.finite s m e hpos) =
      packComponents .binary32 s (BitVec.ofNat 8 b) (BitVec.ofNat 23 m) := by
  have hlog : m.log2 = 23 := (Nat.log2_eq_iff (by omega)).mpr ⟨hlower, hupper⟩
  have hbiased : (e + Format.binary32.exponentBias + (23 : Nat)).toNat = b := by
    rw [bias_eq]
    omega
  simp only [pack, hbiased, hlog]
  rw [if_neg (by omega), if_pos (by rfl)]

lemma unpack_pack {s : Sign} {m : Nat} {e : Int} (hpos : 0 < m) (hlower : 2 ^ 23 ≤ m)
    (hupper : m < 2 ^ 24) (hleast : -149 ≤ e) (hgreatest : e ≤ 104) :
    (Float32.Model.pack (.finite s m e hpos)).unpack = .finite s m e hpos := by
  obtain ⟨b, hb⟩ : ∃ b : Nat, (b : Int) = e + 150 := ⟨(e + 150).toNat, by omega⟩
  have hfield : (BitVec.ofNat 8 b).toNat = b := by
    rw [BitVec.toNat_ofNat]
    omega
  have hne {c : BitVec 8} (hc : c.toNat ≠ b) : BitVec.ofNat 8 b ≠ c :=
    fun h => hc (by rw [← h, hfield])
  have hinfinite : BitVec.ofNat 8 b ≠ -1#8 := hne (by change 255 ≠ b; omega)
  have hsmall : BitVec.ofNat 8 b ≠ 0#8 := hne (by change 0 ≠ b; omega)
  have hmantissa : (1#1 ++ BitVec.ofNat 23 m).toNat = m := by
    rw [BitVec.toNat_append, ← Nat.shiftLeft_add_eq_or_of_lt (BitVec.isLt _), BitVec.toNat_ofNat,
      Nat.shiftLeft_eq]
    change 1 * 2 ^ 23 + m % 2 ^ 23 = m
    omega
  change unpack .binary32 (pack .binary32 (.finite s m e hpos)) = _
  rw [pack_eq hpos hlower hupper hb hgreatest]
  unfold unpack
  simp only [unpackMantissa_packComponents, unpackExponent_packComponents,
    unpackSign_packComponents]
  rw [if_neg hinfinite, if_neg hsmall]
  rw [Sign.ofBitVec_toBitVec]
  congr 1
  rw [hfield, bias_eq]
  omega

lemma isNormal_round {n k : Nat} {e : Int} (hlower : 2 ^ (23 + k) ≤ n) (hupper : n < 2 ^ (24 + k))
    (hleast : -149 ≤ e + k) (hgreatest : e + k ≤ 104) (s : Sign)
    (hr : (shifted n k).roundedMantissa < 2 ^ 24) :
    IsNormal (.ofModel (.pack (roundWithAccuracy .binary32 s n e .exact))) s
      (shifted n k).roundedMantissa (e + k) := by
  obtain ⟨hpos, hround⟩ := roundWithAccuracy_eq hlower hupper hleast s hr
  exact ⟨le_rounded hlower, hr, hleast, hgreatest, hpos, by rw [hround]⟩

lemma isNormal_round_exact {m k : Nat} {e : Int} (hlower : 2 ^ 23 ≤ m) (hupper : m < 2 ^ 24)
    (hleast : -149 ≤ e + k) (hgreatest : e + k ≤ 104) (s : Sign) :
    IsNormal (.ofModel (.pack (roundWithAccuracy .binary32 s (m * 2 ^ k) e .exact))) s m
      (e + k) := by
  have hpos := Nat.two_pow_pos k
  have hround := isNormal_round (n := m * 2 ^ k) (k := k) (e := e)
    (by rw [Nat.pow_add]; exact Nat.mul_le_mul_right _ hlower)
    (by rw [Nat.pow_add]; exact Nat.mul_lt_mul_of_pos_right hupper hpos) hleast hgreatest s
    (by rwa [rounded_mul_two_pow])
  rwa [rounded_mul_two_pow] at hround

namespace IsNormal

variable {x y : Float32} {s s' : Sign} {m m' : Nat} {e e' : Int}

lemma pos (hx : IsNormal x s m e) : 0 < m :=
  Nat.lt_of_lt_of_le (by decide) hx.lower

lemma unpack_eq (hx : IsNormal x s m e) : x.toModel.unpack = .finite s m e hx.pos := by
  obtain ⟨hpos, rfl⟩ := hx.eq
  exact unpack_pack hpos hx.lower hx.upper hx.least hx.greatest

lemma neg (hx : IsNormal x s m e) : IsNormal (-x) (-s) m e := by
  refine ⟨hx.lower, hx.upper, hx.least, hx.greatest, hx.pos, ?_⟩
  change Float32.ofModel (.pack x.toModel.unpack.neg) = _
  rw [hx.unpack_eq]
  rfl

lemma mul (hx : IsNormal x s m e) (hy : IsNormal y s' m' e') {k : Nat}
    (hlower : 2 ^ (23 + k) ≤ m * m') (hupper : m * m' < 2 ^ (24 + k))
    (hleast : -149 ≤ e + e' + k) (hgreatest : e + e' + k ≤ 104)
    (hr : (shifted (m * m') k).roundedMantissa < 2 ^ 24) :
    IsNormal (x * y) (s * s') (shifted (m * m') k).roundedMantissa (e + e' + k) := by
  change IsNormal (.ofModel (.pack (UnpackedFloat.mul .binary32 x.toModel.unpack
    y.toModel.unpack))) _ _ _
  rw [hx.unpack_eq, hy.unpack_eq]
  exact isNormal_round hlower hupper hleast hgreatest _ hr

/-- A quotient by a power of two has the same digits. -/
lemma div_two_pow (hx : IsNormal x s m e) (hy : IsNormal y s' (2 ^ 23) e')
    (hleast : -125 ≤ e - e') (hgreatest : e - e' ≤ 127) :
    IsNormal (x / y) (s / s') m (e - e' - 23) := by
  have hlog : m.log2 = 23 := (Nat.log2_eq_iff (Nat.ne_of_gt hx.pos)).mpr ⟨hx.lower, hx.upper⟩
  have hcore : divCore .binary32 m e (2 ^ 23) e' = (m * 2 ^ 1, e - e' - 24, .exact) := by
    have htarget : min (e - e') (Format.binary32.targetExponent
        (totalExponent m e - totalExponent (2 ^ 23) e')) = e - e' - 24 := by
      simp only [Format.targetExponent, totalExponent, Format.mantissaBits, Format.minExponent,
        hlog, Nat.log2_two_pow]
      omega
    have hshift : (e - e' - (e - e' - 24)).toNat = 24 := by omega
    have hshifted : m <<< 24 = m * 2 ^ 1 * 2 ^ 23 := by
      rw [Nat.shiftLeft_eq]
      omega
    unfold divCore
    dsimp only
    rw [htarget, hshift, hshifted, Nat.mul_div_cancel _ (by decide), Nat.mul_mod_left]
    rfl
  have hround := isNormal_round_exact (k := 1) (e := e - e' - 24) hx.lower hx.upper
    (by omega) (by omega) (s / s')
  have hplace : e - e' - 24 + ((1 : Nat) : Int) = e - e' - 23 := by omega
  rw [hplace] at hround
  change IsNormal (.ofModel (.pack (UnpackedFloat.div .binary32 x.toModel.unpack
    y.toModel.unpack))) _ _ _
  rw [hx.unpack_eq, hy.unpack_eq]
  unfold UnpackedFloat.div
  dsimp only
  rw [hcore]
  exact hround

lemma zero_add (hx : IsNormal x s m e) : 0 + x = x := by
  change Float32.ofModel (.pack (UnpackedFloat.add .binary32 (0 : Float32).toModel.unpack
    x.toModel.unpack)) = _
  have hzero : (0 : Float32).toModel.unpack = .zero .positive := by rfl
  rw [hx.unpack_eq, hzero]
  obtain ⟨hpos, rfl⟩ := hx.eq
  rfl

lemma lt_zero_iff (hx : IsNormal x s m e) : x < 0 ↔ s = .negative := by
  have hlt : x < 0 ↔ x.toModel.unpack.lt (0 : Float32).toModel.unpack = true :=
    decide_eq_true_iff
  have hzero : (0 : Float32).toModel.unpack = .zero .positive := by rfl
  rw [hlt, hx.unpack_eq, hzero]
  cases s
  · exact iff_of_true (by rfl) rfl
  · exact iff_of_false (by rw [Bool.not_eq_true]; rfl) nofun

lemma toUInt32_eq {k : Nat} (hx : IsNormal x .positive m (-(k : Int))) :
    x.toUInt32.toNat = m / 2 ^ k := by
  have hround : roundToInt .positive m (-(k : Int)) = (m / 2 ^ k : Nat) := by
    have hup : (-(k : Int) - 0).toNat = 0 := by omega
    have hdown : (0 - -(k : Int)).toNat = k := by omega
    unfold roundToInt decreaseExponent shiftToExponent
    dsimp only
    rw [hup]
    simp only [Nat.shiftLeft_zero, Nat.cast_zero, Int.sub_zero, hdown]
    exact congrArg Nat.cast (mantissa_shifted m k)
  have hclamp : x.toUInt32 = UInt32.ofNatClamp (x.toModel.unpack.toInt 0 (UInt32.size - 1)).toNat :=
    rfl
  have hsize : m / 2 ^ k < UInt32.size := by
    have hle := Nat.div_le_self m (2 ^ k)
    have hupper := hx.upper
    simp only [UInt32.size]
    omega
  rw [hclamp, hx.unpack_eq, toInt, hround, Int.toNat_natCast, UInt32.ofNatClamp_eq_ofNat _ hsize,
    UInt32.toNat_ofNat_of_lt' hsize]

lemma ofComputed_eq (hx : IsNormal x s m e) : Sample.ofComputed x = ⟨x.toBits⟩ := by
  have hnumber : x.isNaN = false := by
    change x.toModel.unpack.isNaN = false
    rw [hx.unpack_eq]
    rfl
  rw [Sample.ofComputed, hnumber]
  rfl

/-- A number that is computed stays the same in a sample. -/
lemma value_ofComputed (hx : IsNormal x s m e) : (Sample.ofComputed x).value = x := by
  rw [hx.ofComputed_eq]
  exact Float32.ofBits_toBits x

lemma isNaN_ofComputed (hx : IsNormal x s m e) : (Sample.ofComputed x).isNaN = false := by
  obtain ⟨hlower, hupper, hleast, hgreatest, hpos, rfl⟩ := id hx
  obtain ⟨b, hb⟩ : ∃ b : Nat, (b : Int) = e + 150 := ⟨(e + 150).toNat, by omega⟩
  have hpack := pack_eq (s := s) hpos hlower hupper hb hgreatest
  have hbits : (packComponents .binary32 s (BitVec.ofNat 8 b) (BitVec.ofNat 23 m)).toNat % 2 ^ 31 =
      b * 2 ^ 23 + m % 2 ^ 23 := by
    unfold packComponents
    rw [BitVec.toNat_append, ← Nat.shiftLeft_add_eq_or_of_lt (BitVec.isLt _), BitVec.toNat_append,
      ← Nat.shiftLeft_add_eq_or_of_lt (BitVec.isLt _), BitVec.toNat_ofNat, BitVec.toNat_ofNat]
    simp only [Nat.shiftLeft_eq]
    omega
  have hlow : ((⟨pack .binary32 (.finite s m e hpos)⟩ : UInt32) &&& 0x7FFFFFFF).toNat =
      b * 2 ^ 23 + m % 2 ^ 23 := by
    rw [hpack, UInt32.toNat_and]
    exact (Nat.and_two_pow_sub_one_eq_mod _ 31).trans hbits
  rw [hx.ofComputed_eq]
  change decide ((0x7F800000 : UInt32) < ⟨pack .binary32 (.finite s m e hpos)⟩ &&& 0x7FFFFFFF) = _
  rw [decide_eq_false_iff_not, UInt32.lt_iff_toNat_lt, hlow, Nat.not_lt]
  change _ ≤ 0x7F800000
  omega

lemma zero_add_ofComputed (hx : IsNormal x s m e) :
    0 + Sample.ofComputed x = Sample.ofComputed x := by
  change Sample.combine (· + ·) 0 (.ofComputed x) = _
  have hsilence : (0 : Sample).isNaN = false := by decide
  have hzero : (0 : Sample).value = 0 := by rfl
  unfold Sample.combine
  rw [hx.isNaN_ofComputed, hsilence, hzero, hx.value_ofComputed]
  exact congrArg Sample.ofComputed hx.zero_add

end IsNormal

/-- A whole number of at most 24 digits is kept as it is. -/
lemma isNormal_toFloat32 {n : Nat} (hpos : 0 < n) (hn : n < 2 ^ 24) :
    IsNormal (UInt32.ofNat n).toFloat32 .positive (n * 2 ^ (23 - n.log2)) (n.log2 - 23) := by
  have hne : n ≠ 0 := Nat.ne_of_gt hpos
  obtain ⟨k, hk⟩ : ∃ k, n.log2 + k = 23 := ⟨23 - n.log2, by
    have := (Nat.log2_lt hne).mpr hn
    omega⟩
  have htwo := Nat.two_pow_pos k
  have hplaces : 23 - n.log2 = k := by omega
  have hlower : 2 ^ 23 ≤ n * 2 ^ k := by
    rw [← hk, Nat.pow_add]
    exact Nat.mul_le_mul_right _ (Nat.log2_self_le hne)
  have hupper : n * 2 ^ k < 2 ^ 24 := by
    have hlt := Nat.mul_lt_mul_of_pos_right (Nat.lt_log2_self (n := n)) htwo
    rwa [← Nat.pow_add, Nat.add_right_comm, hk] at hlt
  have hround := isNormal_round_exact (k := 0) (e := -k) hlower hupper (by omega) (by omega)
    .positive
  have htarget : Format.binary32.targetExponent (totalExponent n 0) = -k := by
    simp only [Format.targetExponent, totalExponent, Format.mantissaBits, Format.minExponent]
    omega
  have hnat : (UInt32.ofNat n).toNat = n := by
    rw [UInt32.toNat_ofNat']
    omega
  have hplace : (n.log2 : Int) - 23 = -k + (0 : Nat) := by omega
  have hshift : ((0 : Int) - -k).toNat = k := by omega
  have hmodel : UnpackedFloat.ofUInt32 .binary32 (UInt32.ofNat n) =
      roundWithAccuracy .binary32 .positive (n * 2 ^ k * 2 ^ 0) (-k) .exact := by
    unfold UnpackedFloat.ofUInt32 UnpackedFloat.ofNat UnpackedFloat.ofInt
      UnpackedFloat.normalize
    rw [hnat]
    have hcompare : compare (n : Int) 0 = .gt := by
      rw [Int.compare_eq_gt]
      omega
    rw [hcompare]
    dsimp only
    unfold UnpackedFloat.round decreaseExponent
    dsimp only
    rw [Int.toNat_natCast, htarget, hshift, Nat.shiftLeft_eq, Nat.pow_zero, Nat.mul_one]
    congr 1
    omega
  rw [hplaces, hplace]
  change IsNormal (.ofModel (.pack (UnpackedFloat.ofUInt32 .binary32 (UInt32.ofNat n)))) _ _ _
  rw [hmodel]
  exact hround

end Remix.Single
