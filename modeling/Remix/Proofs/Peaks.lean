import Mathlib.Data.Prod.Lex
import Mathlib.Tactic.Common
import Remix.Audio.Level

/-!
# The peak of a buffer

Numbers of single precision are compared as their ranks, by sign, exponent and mantissa in this
order, where what is no number has no rank. So to be less is transitive and holds of no number and
itself. That is all that the peak needs to be the size of the largest sample, although it passes
over samples that are no numbers.
-/

namespace Remix

open Float.Model (UnpackedFloat)

/-- The place of a number among all others. What is no number has none. -/
def rank? : UnpackedFloat → Option (ℤ ×ₗ ℤ ×ₗ ℤ)
  | .notANumber => none
  | .infinity .negative => some (toLex (-2, toLex (0, 0)))
  | .finite .negative mantissa exponent _ =>
    some (toLex (-1, toLex (-exponent, -(mantissa : ℤ))))
  | .zero _ => some (toLex (0, toLex (0, 0)))
  | .finite .positive mantissa exponent _ => some (toLex (1, toLex (exponent, (mantissa : ℤ))))
  | .infinity .positive => some (toLex (2, toLex (0, 0)))

lemma lt_iff_rank {a b : UnpackedFloat} :
    a.lt b = true ↔ ∃ m n, rank? a = some m ∧ rank? b = some n ∧ m < n := by
  have hsigns : compare UnpackedFloat.Sign.negative .positive = .lt := rfl
  -- Of two negative numbers, the one whose size is larger is less.
  have hlarger : ∀ (e e' : ℤ) (m m' : ℕ), (compare e e').then (compare m m') = .gt ↔
      e' < e ∨ e = e' ∧ m' < m := by
    intro e e' m m'
    rw [Ordering.then_eq_gt, compare_gt_iff_gt, compare_gt_iff_gt, compare_eq_iff_eq]
  rcases a with (_ | _) | _ | _ | ⟨_ | _, m, e, hm⟩ <;>
    rcases b with (_ | _) | _ | _ | ⟨_ | _, m', e', hm'⟩ <;>
      dsimp only [UnpackedFloat.lt, UnpackedFloat.compare, rank?] <;>
      simp [Prod.Lex.toLex_lt_toLex, Ordering.then_eq_lt, Ordering.swap_eq_lt, hsigns,
        hlarger, compare_lt_iff_lt]

lemma float_lt_iff {x y : Float32} : x < y ↔ x.toModel.unpack.lt y.toModel.unpack = true :=
  decide_eq_true_iff

lemma float_lt_irrefl (x : Float32) : ¬x < x := by
  rw [float_lt_iff, lt_iff_rank]
  rintro ⟨m, n, hm, hn, hlt⟩
  rw [hm] at hn
  cases hn
  exact lt_irrefl m hlt

lemma float_lt_trans {x y z : Float32} (hxy : x < y) (hyz : y < z) : x < z := by
  rw [float_lt_iff, lt_iff_rank] at hxy hyz ⊢
  obtain ⟨m, n, hm, hn, hmn⟩ := hxy
  obtain ⟨n', k, hn', hk, hnk⟩ := hyz
  rw [hn] at hn'
  cases hn'
  exact ⟨m, k, hm, hk, hmn.trans hnk⟩

namespace Buffer

/-- No sample is larger than `level`. It is 0, or else the size of one of them and positive, so that
it is a number in both cases. -/
structure IsPeak (b : Buffer) (level : Float32) : Prop where
  bounds : ∀ channel ∈ b.channels, ∀ s ∈ channel, ¬level < s.value.abs
  attained : level = 0 ∨ 0 < level ∧ ∃ channel ∈ b.channels, ∃ s ∈ channel, level = s.value.abs

/-- What has been found to be the largest so far never becomes less. -/
lemma foldl_louder (level : Float32) (samples : List Sample) :
    (∀ x, samples.foldl louder level < x → level < x) ∧
    (∀ s ∈ samples, ¬samples.foldl louder level < s.value.abs) ∧
    (samples.foldl louder level = level ∨ level < samples.foldl louder level ∧
      ∃ s ∈ samples, samples.foldl louder level = s.value.abs) := by
  induction samples generalizing level with
  | nil => exact ⟨fun x hx => hx, nofun, .inl rfl⟩
  | cons s samples ih =>
    obtain ⟨hgrows, hbounds, hattained⟩ := ih (louder level s)
    rw [List.foldl_cons]
    have hstep : ∀ x, louder level s < x → level < x := by
      intro x hx
      unfold louder at hx
      split at hx
      · exact float_lt_trans (by assumption) hx
      · exact hx
    refine ⟨fun x hx => hstep x (hgrows x hx), ?_, ?_⟩
    · intro t ht hlt
      rcases List.mem_cons.mp ht with rfl | ht
      · have hs := hgrows _ hlt
        unfold louder at hs
        split at hs
        · exact float_lt_irrefl _ hs
        · contradiction
      · exact hbounds t ht hlt
    · rcases hattained with hsame | ⟨hlarger, t, ht, hsize⟩
      · rw [hsame]
        unfold louder
        split
        · exact .inr ⟨by assumption, s, List.mem_cons_self, rfl⟩
        · exact .inl rfl
      · exact .inr ⟨hstep _ hlarger, t, List.mem_cons_of_mem s ht, hsize⟩

/-- The peak is the size of the largest sample. -/
theorem isPeak_peak (b : Buffer) : b.IsPeak b.peak := by
  obtain ⟨-, hbounds, hattained⟩ := foldl_louder 0 b.channels.flatten
  constructor
  · intro channel hc s hs
    exact hbounds s (List.mem_flatten.mpr ⟨channel, hc, hs⟩)
  · rcases hattained with hzero | ⟨hpos, s, hs, hsize⟩
    · exact .inl hzero
    · obtain ⟨channel, hc, hs⟩ := List.mem_flatten.mp hs
      exact .inr ⟨hpos, channel, hc, s, hs, hsize⟩

end Buffer

end Remix
