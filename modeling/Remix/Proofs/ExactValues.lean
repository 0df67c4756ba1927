import Mathlib.Data.Rat.Floor
import Mathlib.Tactic.Linarith
import Mathlib.Tactic.Positivity
import Remix.Number.Exact
import Remix.Proofs.Peaks
import Remix.Proofs.Quantizing

/-!
# Exact values of samples

A finite number of single precision is a rational number. What a number becomes in a file of whole
numbers is told by this value: it is cut off at both ends of the range and loses its fraction. On
the way back a whole number is divided by full scale, and nothing is lost.
-/

namespace Remix

open Float.Model (UnpackedFloat)
open Float.Model.UnpackedFloat

namespace Exact

/-- Whether a sign is a minus. -/
def isMinus : Sign → Bool
  | .negative => true
  | .positive => false

/-- The value of a number by its digits and the place of the last one. -/
def ofUnpacked : UnpackedFloat → Exact
  | .notANumber => nan
  | .infinity s => infinite (isMinus s)
  | .zero s => finite (isMinus s) 0
  | .finite s m e _ => finite (isMinus s) (m * 2 ^ (e + 149).toNat)

lemma isMinus_ofBitVec (b : BitVec 1) : isMinus (.ofBitVec b) = decide (b.toNat = 1) := by
  revert b
  decide

section Bits

variable (b : BitVec Float.Model.Format.binary32.numBits)

/-- The sign, the exponent and the fraction in the bits of a number. -/
lemma toNat_fields : (unpackSign b).toNat = b.toNat / 2 ^ 31 % 2 ∧
    (unpackExponent b).toNat = b.toNat / 2 ^ 23 % 2 ^ 8 ∧
    (unpackMantissa b).toNat = b.toNat % 2 ^ 23 := by
  rw [unpackSign_def, unpackExponent_def, unpackMantissa_def]
  simp only [BitVec.extractLsb'_toNat, Nat.shiftRight_eq_div_pow, Nat.pow_zero, Nat.div_one]
  exact ⟨trivial, trivial, trivial⟩

lemma ofBits_eq : ofBits .single b.toNat = ofUnpacked (unpack .binary32 b) := by
  obtain ⟨hsign, hexponent, hfraction⟩ := toNat_fields b
  have hminus : isMinus (.ofBitVec (unpackSign b)) = decide (b.toNat / 2 ^ 31 % 2 = 1) := by
    rw [isMinus_ofBitVec, hsign]
  have hall : (unpackExponent b).toNat = 2 ^ 8 - 1 ↔ unpackExponent b = -1#_ := by
    rw [← BitVec.toNat_inj]
    rfl
  have hnone : (unpackExponent b).toNat = 0 ↔ unpackExponent b = 0#_ := by
    rw [← BitVec.toNat_inj]
    rfl
  have hzero : (unpackMantissa b).toNat = 0 ↔ unpackMantissa b = 0#_ := by
    rw [← BitVec.toNat_inj]
    rfl
  have hdigits : (1#1 ++ unpackMantissa b).toNat = 2 ^ 23 + (unpackMantissa b).toNat := by
    rw [BitVec.toNat_append, ← Nat.shiftLeft_add_eq_or_of_lt (BitVec.isLt _)]
    rfl
  have hvalue : ofBits .single b.toNat =
      let negative := isMinus (.ofBitVec (unpackSign b))
      let exponent := (unpackExponent b).toNat
      let fraction := (unpackMantissa b).toNat
      if exponent = 2 ^ 8 - 1 then if fraction = 0 then infinite negative else nan
      else if exponent = 0 then finite negative fraction
      else finite negative ((2 ^ 23 + fraction) * 2 ^ (exponent - 1)) := by
    rw [hminus, hexponent, hfraction]
    rfl
  rw [hvalue]
  unfold unpack
  dsimp only
  by_cases hlarge : unpackExponent b = -1#_
  · rw [if_pos (hall.mpr hlarge), if_pos hlarge]
    by_cases hm : unpackMantissa b = 0#_
    · rw [if_pos (hzero.mpr hm), if_pos hm]
      rfl
    · rw [if_neg (hzero.not.mpr hm), if_neg hm]
      rfl
  · rw [if_neg (hall.not.mpr hlarge), if_neg hlarge]
    by_cases hsmall : unpackExponent b = 0#_
    · rw [if_pos (hnone.mpr hsmall), if_pos hsmall]
      by_cases hm : unpackMantissa b = 0#_
      · rw [dif_pos hm, hzero.mpr hm]
        rfl
      · rw [dif_neg hm, ofUnpacked, hnone.mpr hsmall]
        exact congrArg _ (Nat.mul_one _).symm
    · rw [if_neg (hnone.not.mpr hsmall), if_neg hsmall, ofUnpacked, hdigits, Single.bias_eq]
      congr 3
      omega

lemma least_of_unpack {s : Sign} {m : Nat} {e : Int} {hm : 0 < m}
    (h : unpack .binary32 b = .finite s m e hm) : -149 ≤ e := by
  unfold unpack at h
  rw [Single.bias_eq] at h
  dsimp only at h
  split at h
  · split at h <;> cases h
  · split at h
    · split at h
      · cases h
      · cases h
        omega
    · rename_i hsome
      cases h
      have hpos : (unpackExponent b).toNat ≠ 0 := fun h0 => hsome (BitVec.eq_of_toNat_eq h0)
      omega

/-- A number that is packed and unpacked is as before. -/
lemma unpack_pack_unpack : unpack .binary32 (pack .binary32 (unpack .binary32 b)) =
    unpack .binary32 b := by
  rw [pack_unpack b]
  by_cases hnan : isNaNBits b = true
  · have hbits := decide_eq_true_eq.mp hnan
    rw [if_pos hnan, unpack_packedNaN]
    unfold unpack
    rw [if_pos hbits.1, if_neg hbits.2]
  · rw [if_neg hnan]

/-- A number and the same with the other sign are unpacked alike. -/
lemma exists_unpack_neg : ∃ b', (unpack .binary32 b).neg = unpack .binary32 b' := by
  refine ⟨packComponents .binary32 (-.ofBitVec (unpackSign b)) (unpackExponent b)
    (unpackMantissa b), ?_⟩
  unfold unpack
  simp only [unpackMantissa_packComponents, unpackExponent_packComponents,
    unpackSign_packComponents, Sign.ofBitVec_toBitVec]
  split
  · split <;> rfl
  · split
    · split <;> rfl
    · rfl

end Bits

lemma ofFloat32_eq (x : Float32) : ofFloat32 x = ofUnpacked x.toModel.unpack :=
  ofBits_eq x.toModel.toBits.toBitVec

lemma unpack_neg (x : Float32) : (-x).toModel.unpack = x.toModel.unpack.neg := by
  obtain ⟨b', hb'⟩ := exists_unpack_neg x.toModel.toBits.toBitVec
  change unpack .binary32 (pack .binary32 (unpack .binary32 _).neg) = (unpack .binary32 _).neg
  rw [hb', unpack_pack_unpack]

/-- The whole number that a number with a sign and a size is. -/
def withSign (negative : Bool) (size : ℤ) : ℤ := if negative then -size else size

lemma withSign_false (size : ℤ) : withSign false size = size := rfl

lemma withSign_true (size : ℤ) : withSign true size = -size := rfl

/-- The whole part of a number, as large as 32 bits allow. -/
def saturated : Exact → ℤ
  | nan => 0
  | infinite negative => withSign negative (UInt32.size - 1 : ℕ)
  | finite negative magnitude =>
    withSign negative (min (UInt32.size - 1) (magnitude / 2 ^ 149) : ℕ)

lemma toUInt32_eq (x : Float32) : x.toUInt32.toNat =
    min (UInt32.size - 1) (x.toModel.unpack.toInt 0 (UInt32.size - 1)).toNat := by
  have hclamp : x.toUInt32 =
      UInt32.ofNatClamp (x.toModel.unpack.toInt 0 (UInt32.size - 1)).toNat := rfl
  rw [hclamp]
  generalize (x.toModel.unpack.toInt 0 (UInt32.size - 1)).toNat = n
  by_cases hn : n < UInt32.size
  · rw [UInt32.ofNatClamp_eq_ofNat n hn, UInt32.toNat_ofNat_of_lt' hn]
    omega
  · rw [UInt32.ofNatClamp, dif_neg hn]
    change UInt32.size - 1 = _
    omega

lemma roundToInt_eq (s : Sign) (m : ℕ) {e : ℤ} (he : -149 ≤ e) :
    roundToInt s m e = s.apply (m * 2 ^ (e + 149).toNat / 2 ^ 149 : ℕ) := by
  unfold roundToInt decreaseExponent shiftToExponent
  dsimp only
  rw [Nat.shiftLeft_eq]
  rcases Int.le_total 0 e with hnonneg | hneg
  · obtain ⟨k, rfl⟩ := Int.eq_ofNat_of_zero_le hnonneg
    have hup : ((k : ℤ) - 0).toNat = k := by omega
    have hdown : (0 - ((k : ℤ) - k)).toNat = 0 := by omega
    have hall : ((k : ℤ) + 149).toNat = k + 149 := by omega
    rw [hup, hdown, hall, Nat.pow_add, ← Nat.mul_assoc, Nat.mul_div_cancel _ (Nat.two_pow_pos 149)]
    rfl
  · obtain ⟨k, hk⟩ : ∃ k : ℕ, e = -k := ⟨(-e).toNat, by omega⟩
    have hup : (e - 0).toNat = 0 := by omega
    have hdown : (0 - (e - (0 : ℕ))).toNat = k := by omega
    have hrest : (e + 149).toNat = 149 - k := by omega
    have hpow : 2 ^ 149 = 2 ^ k * 2 ^ (149 - k) := by
      rw [← Nat.pow_add]
      congr 1
      omega
    rw [hup, hdown, hrest, Nat.pow_zero, Nat.mul_one, hpow,
      Nat.mul_div_mul_right _ _ (Nat.two_pow_pos _), ← Single.mantissa_shifted]
    rfl

lemma wholePart_eq (x : Float32) : Wave.wholePart x = (ofFloat32 x).saturated := by
  have hneg : x < 0 ↔ x.toModel.unpack.lt (.zero .positive) = true := float_lt_iff
  have hleast : ∀ {s m e hm}, x.toModel.unpack = .finite s m e hm → -149 ≤ e :=
    least_of_unpack x.toModel.toBits.toBitVec
  rw [Wave.wholePart, ofFloat32_eq, toUInt32_eq, toUInt32_eq, unpack_neg, if_congr hneg rfl rfl]
  generalize x.toModel.unpack = u at hleast
  rcases u with (_ | _) | _ | (_ | _) | ⟨_ | _, m, e, hm⟩
  · rfl
  · rfl
  · rfl
  · rfl
  · rfl
  · have hwhole := roundToInt_eq .positive m (hleast rfl)
    rw [if_pos (by rfl)]
    change -((min _ (roundToInt .positive m e).toNat : ℕ) : ℤ) = -((min _ _ : ℕ) : ℤ)
    rw [hwhole]
    rfl
  · have hwhole := roundToInt_eq .positive m (hleast rfl)
    rw [if_neg (by rw [Bool.not_eq_true]; rfl)]
    change ((min _ (roundToInt .positive m e).toNat : ℕ) : ℤ) = ((min _ _ : ℕ) : ℤ)
    rw [hwhole]
    rfl

/-- The rational number with a sign and a magnitude of single precision. -/
def rational (negative : Bool) (magnitude : ℕ) : ℚ :=
  (if negative then -1 else 1) * magnitude / 2 ^ Format.single.unitBits

/-- The rational number that a finite number is. -/
def rational? : Exact → Option ℚ
  | finite negative magnitude => some (rational negative magnitude)
  | _ => none

/-- A rational number without its fraction. -/
def truncate (r : ℚ) : ℤ := if 0 ≤ r then ⌊r⌋ else ⌈r⌉

/-- A number that is cut off below `-half` and above `half - 1`, without its fraction. What is no
number becomes 0. -/
def cutOff (half : ℕ) : Exact → ℤ
  | nan => 0
  | infinite negative => if negative then -half else half - 1
  | finite negative magnitude =>
    truncate (max (-half) (min (half - 1) (rational negative magnitude)))

lemma truncate_rational (negative : Bool) (magnitude : ℕ) :
    truncate (rational negative magnitude) = withSign negative (magnitude / 2 ^ 149 : ℕ) := by
  have hfloor : ⌊(magnitude / 2 ^ 149 : ℚ)⌋ = (magnitude / 2 ^ 149 : ℕ) := by
    have h := Rat.floor_natCast_div_natCast magnitude (2 ^ 149)
    rw [Nat.cast_pow, Nat.cast_ofNat] at h
    rw [h]
    norm_cast
  cases negative with
  | false =>
    have hpos : rational false magnitude = magnitude / 2 ^ 149 := congrArg (· / _) (one_mul _)
    have hnonneg : (0 : ℚ) ≤ magnitude / 2 ^ 149 := by positivity
    rw [hpos, truncate, if_pos hnonneg, hfloor]
    rfl
  | true =>
    have hneg : rational true magnitude = -(magnitude / 2 ^ 149) := by
      rw [← neg_div, ← neg_one_mul]
      rfl
    rw [hneg, truncate]
    rcases Nat.eq_zero_or_pos magnitude with rfl | hpos
    · simp [withSign]
    · have hlt : (0 : ℚ) < magnitude / 2 ^ 149 := by positivity
      rw [if_neg (by linarith), Int.ceil_neg, hfloor]
      rfl

lemma truncate_intCast (n : ℤ) : truncate n = n := by
  unfold truncate
  split
  · exact Int.floor_intCast n
  · exact Int.ceil_intCast n

lemma truncate_mono : Monotone truncate := by
  intro r s h
  unfold truncate
  split
  · rw [if_pos (by linarith)]
    exact Int.floor_mono h
  · split
    · calc ⌈r⌉ ≤ 0 := Int.ceil_le.mpr (by push_cast; linarith)
        _ ≤ ⌊s⌋ := Int.floor_nonneg.mpr (by assumption)
    · exact Int.ceil_mono h

/-- A number may as well lose its fraction before it is cut off. -/
lemma cutOff_eq {half : ℕ} (hpos : 0 < half) (hhalf : half < UInt32.size) (x : Exact) :
    x.cutOff half = max (-(half : ℤ)) (min (half - 1) x.saturated) := by
  cases x with
  | nan =>
    rw [cutOff, saturated]
    omega
  | infinite negative =>
    rw [cutOff, saturated]
    cases negative
    · rw [withSign_false, if_neg Bool.false_ne_true]
      omega
    · rw [withSign_true, if_pos rfl]
      omega
  | finite negative magnitude =>
    have hends : (-half : ℚ) = (-half : ℤ) ∧ (half - 1 : ℚ) = (half - 1 : ℤ) := by
      push_cast
      exact ⟨rfl, rfl⟩
    rw [cutOff, truncate_mono.map_max, truncate_mono.map_min, hends.1, hends.2, truncate_intCast,
      truncate_intCast, truncate_rational, saturated]
    generalize magnitude / 2 ^ 149 = size
    cases negative
    · rw [withSign_false, withSign_false]
      omega
    · rw [withSign_true, withSign_true]
      omega

end Exact

lemma Single.IsNormal.exact_eq {x : Float32} {s : Sign} {m : ℕ} {e : ℤ}
    (hx : Single.IsNormal x s m e) :
    Exact.ofFloat32 x = .finite (Exact.isMinus s) (m * 2 ^ (e + 149).toNat) := by
  rw [Exact.ofFloat32_eq, hx.unpack_eq]
  rfl

namespace Wave

/-- A sample in a file of whole numbers. -/
lemma quantize_eq {bits : ℕ} (hbits : bits = 16 ∨ bits = 24) (x : Float32) :
    quantize bits x =
      (Exact.ofFloat32 (x * Float32.ofNat (2 ^ (bits - 1) - 1))).cutOff (2 ^ (bits - 1)) := by
  have hhalf : 2 ^ (bits - 1) < UInt32.size := by rcases hbits with rfl | rfl <;> decide
  rw [Exact.cutOff_eq (Nat.two_pow_pos _) hhalf, ← Exact.wholePart_eq]
  rfl

/-- Nothing is lost if a whole number is divided by full scale. -/
lemma rational_ofWhole {bits : ℕ} (hbits : bits = 16 ∨ bits = 24) {v : ℤ}
    (hv : v.natAbs ≤ 2 ^ (bits - 1)) :
    (Exact.ofFloat32 (ofWhole bits v).value).rational? = some ((v : ℚ) / 2 ^ (bits - 1)) := by
  by_cases hzero : v = 0
  · subst hzero
    have hsilent : Exact.ofFloat32 (ofWhole bits 0).value = .finite false 0 := by
      rcases hbits with rfl | rfl <;> decide +kernel
    simp [hsilent, Exact.rational?, Exact.rational]
  · have hnormal := isNormal_ofWhole hbits hzero hv
    have hvalue : (ofWhole bits v).value =
        floatOfWhole v / Float32.ofNat (Nat.pow 2 (bits - 1)) := hnormal.value_ofComputed
    have hmagnitude : v.natAbs * 2 ^ (23 - v.natAbs.log2) *
        2 ^ ((v.natAbs.log2 : ℤ) - 23 - (bits - 1 : ℕ) + 149).toNat =
          v.natAbs * 2 ^ (150 - bits) := by
      have hlog : v.natAbs.log2 ≤ bits - 1 :=
        (Nat.pow_le_pow_iff_right (by decide)).mp ((Nat.log2_self_le (by omega)).trans hv)
      rw [Nat.mul_assoc, ← Nat.pow_add]
      congr 2
      omega
    have hscale : (2 : ℚ) ^ Format.single.unitBits = 2 ^ (bits - 1) * 2 ^ (150 - bits) := by
      rw [← pow_add]
      congr 1
      change 149 = _
      omega
    have hsign : (if Exact.isMinus (if v < 0 then Sign.negative else .positive) then (-1 : ℚ)
        else 1) * v.natAbs = v := by
      by_cases hneg : v < 0
      · rw [if_pos hneg, Nat.cast_natAbs, abs_of_neg hneg]
        simp [Exact.isMinus]
      · rw [if_neg hneg, Nat.cast_natAbs, abs_of_nonneg (by omega)]
        simp [Exact.isMinus]
    rw [hvalue, hnormal.exact_eq, hmagnitude, Exact.rational?, Option.some_inj,
      Exact.rational, hscale, Nat.cast_mul, ← mul_assoc, hsign, Nat.cast_pow, Nat.cast_ofNat]
    exact mul_div_mul_right _ _ (by positivity)

end Wave

end Remix
