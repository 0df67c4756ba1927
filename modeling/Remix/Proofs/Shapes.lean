import Remix.Proofs.Regularity
import Remix.Settings.Basic

/-!
# Shapes

The standard transforms keep the shape of a buffer: its channels, their lengths and its sample rate.
So every sink has the shape of the stem at the beginning of its chain, and the length, the width and
the rate of a mix can be read off the stems, without the actions and the settings.
-/

namespace Remix

lemma length_rotateRight {α : Type} (k : Nat) (xs : List α) :
    (rotateRight k xs).length = xs.length := by
  rw [rotateRight, List.length_append, List.length_drop, List.length_take]
  omega

lemma TimeShift.sameShape_of_apply {t : TimeShift} {b c : Buffer} (h : t.apply b = .ok c) :
    c.SameShape b := by
  unfold apply at h
  by_cases hempty : b.isEmpty
  · rw [if_pos hempty] at h
    cases h
    exact .refl b
  · rw [if_neg hempty] at h
    dsimp only at h
    split at h
    · cases h
    · cases h
      exact Buffer.sameShape_map (length_rotateRight _) b

namespace PitchShift

lemma length_shiftChannel (p : PitchShift) (channel : List Sample) :
    (p.shiftChannel channel).length = channel.length := by
  rw [shiftChannel, List.length_map, List.length_range]

variable {p : PitchShift} {b c : Buffer}

lemma sameShape_of_apply (h : p.apply b = .ok c) : c.SameShape b := by
  unfold apply at h
  split at h
  · cases h
  · split at h
    · cases h
    · split at h
      · cases h
        exact .refl b
      · cases h
        exact Buffer.sameShape_map p.length_shiftChannel b

/-- With a window that is large enough only a rate of zero stands in the way. -/
lemma apply_error (hwindow : 2 ≤ p.window) {cause : TransformError} (h : p.apply b = .error cause) :
    cause = .unsupportedRate 0 := by
  unfold apply at h
  split at h
  · cases h
    rfl
  · rw [if_neg (Nat.not_lt_of_le hwindow)] at h
    split at h <;> cases h

end PitchShift

namespace Bank

variable {b c : Buffer} {a : Action}

lemma sameShape_of_apply {bank : Bank} (h : bank.apply a b = .ok c) : c.SameShape b := by
  unfold apply at h
  cases ht : bank.get? a with
  | none =>
    rw [ht] at h
    cases h
  | some t =>
    rw [ht] at h
    cases t with
    | time t => exact TimeShift.sameShape_of_apply h
    | pitch p => exact PitchShift.sameShape_of_apply h

lemma get?_standard (shift window : Nat) (a : Action) :
    (∃ t, (standard shift window).get? a = some (.time t)) ∨
      ∃ p : PitchShift, (standard shift window).get? a = some (.pitch p) ∧ p.window = window := by
  cases a
  case early | late => exact .inl ⟨_, rfl⟩
  all_goals exact .inr ⟨_, rfl, rfl⟩

lemma apply_standard_error {shift window : Nat} (hwindow : 2 ≤ window) (hb : b.IsRegular)
    {cause : TransformError} (h : (standard shift window).apply a b = .error cause) :
    cause = .unsupportedRate 0 := by
  unfold apply at h
  rcases get?_standard shift window a with ⟨t, ht⟩ | ⟨p, hp, rfl⟩
  · obtain ⟨c, hc⟩ := t.exists_apply hb
    rw [ht] at h
    change t.apply b = _ at h
    rw [hc] at h
    cases h
  · rw [hp] at h
    exact PitchShift.apply_error hwindow h

end Bank

/-- The errors that are left to an execution on regular stems with the standard transforms. -/
inductive StandardFailure (stems : StemMap Buffer) : RuntimeError → Prop where
  | missingStem {s : Stem} (i : Nat) (h : stems.get? s = none) :
      StandardFailure stems (.missingStem s i)
  | unsupportedRate (i : Nat) (a : Action) :
      StandardFailure stems (.transformFailed i a (.unsupportedRate 0))
  | notFinite (i : Nat) (a : Action) : StandardFailure stems (.transformFailed i a .notFinite)

namespace Evaluation

variable {bank : Bank} {stems : StemMap Buffer} {kept : List Deposit} {actions : List Action}
  {b c : Buffer} {s : Statement} {d : Deposit} {i : Nat} {rate : UInt32} {e : RuntimeError}

lemma sameShape_of_applyAll (h : (applyAll bank.apply i rate actions b).result = .ok c) :
    c.SameShape b := by
  induction actions generalizing b with
  | nil =>
    cases h
    exact .refl c
  | cons a rest ih =>
    rw [result_applyAll_cons] at h
    cases ha : Execution.applyAction bank.apply i rate a b with
    | error e =>
      rw [ha] at h
      cases h
    | ok result =>
      rw [ha] at h
      exact (ih h).trans (Bank.sameShape_of_apply (applyAction_eq_ok_iff.mp ha).1)

lemma sameShape_of_evaluateStatement
    (h : (evaluateStatement bank.apply stems kept s).result = .ok d) :
    ∃ b, input stems kept kept.length s.source = .ok b ∧ d.buffer.SameShape b := by
  obtain ⟨b, hb, hc, -⟩ := evaluateStatement_eq_ok h
  exact ⟨b, hb, sameShape_of_applyAll hc⟩

lemma input_error {source : Source} (h : input stems kept i source = .error e) :
    (∃ s, stems.get? s = none ∧ e = .missingStem s i) ∨ ∃ name, e = .missingSink name i := by
  cases source with
  | stem s =>
    rw [input] at h
    split at h
    · cases h
    · rename_i hs
      cases h
      exact .inl ⟨s, hs, rfl⟩
  | sink name =>
    rw [input] at h
    split at h
    · cases h
    · cases h
      exact .inr ⟨name, rfl⟩

section Standard

variable {shift window : Nat}

/-- Of the checks behind a standard transform only that for finite samples can fail. -/
lemma standardFailure_of_rejected (hwindow : 2 ≤ window) (stems : StemMap Buffer) {a : Action}
    (hb : b.IsRegular) (hrate : b.rate = rate)
    (h : Rejected (Bank.standard shift window).apply i rate a b e) : StandardFailure stems e := by
  cases h with
  | failed h =>
    rw [Bank.apply_standard_error hwindow hb h]
    exact .unsupportedRate i a
  | rate h hne => exact absurd ((Bank.sameShape_of_apply h).rate.trans hrate) hne
  | layout h _ hregular _ => exact absurd ((Bank.sameShape_of_apply h).isRegular hb) hregular
  | samples _ _ _ _ => exact .notFinite i a

lemma standardFailure_of_applyAll (hwindow : 2 ≤ window) (stems : StemMap Buffer)
    (hb : b.IsRegular) (hrate : b.rate = rate)
    (h : (applyAll (Bank.standard shift window).apply i rate actions b).result = .error e) :
    StandardFailure stems e := by
  induction actions generalizing b with
  | nil => cases h
  | cons a rest ih =>
    rw [result_applyAll_cons] at h
    cases ha : Execution.applyAction (Bank.standard shift window).apply i rate a b with
    | error e' =>
      rw [ha] at h
      cases h
      exact standardFailure_of_rejected hwindow stems hb hrate
        (Execution.rejected_of_applyAction ha)
    | ok c =>
      rw [ha] at h
      obtain ⟨-, hc, hlayout, -⟩ := applyAction_eq_ok_iff.mp ha
      exact ih (Buffer.layoutFault?_eq_none_iff.mp hlayout) hc h

lemma standardFailure_of_evaluateStatement (hwindow : 2 ≤ window) (hstems : stems.AllRegular)
    (hkept : ∀ d ∈ kept, d.buffer.IsRegular)
    (h : (evaluateStatement (Bank.standard shift window).apply stems kept s).result = .error e) :
    StandardFailure stems e ∨ ∃ name i, e = .missingSink name i := by
  rw [result_evaluateStatement] at h
  cases hb : input stems kept kept.length s.source with
  | error e' =>
    rw [hb] at h
    cases h
    rcases input_error hb with ⟨t, ht, rfl⟩ | ⟨name, rfl⟩
    · exact .inl (.missingStem _ ht)
    · exact .inr ⟨name, _, rfl⟩
  | ok b =>
    rw [hb] at h
    have hregular : b.IsRegular := isRegular_of_input hstems hkept hb
    change (applyAll _ kept.length b.rate s.actions b).result >>= _ = _ at h
    cases hc : (applyAll (Bank.standard shift window).apply kept.length b.rate s.actions b).result
      with
    | error e' =>
      rw [hc] at h
      cases h
      exact .inl (standardFailure_of_applyAll hwindow stems hregular rfl hc)
    | ok c =>
      rw [hc] at h
      cases h

theorem standardFailure_of_evaluateFrom {rest : List Statement} (hwindow : 2 ≤ window)
    (hstems : stems.AllRegular) (hkept : ∀ d ∈ kept, d.buffer.IsRegular)
    (h : (evaluateFrom (Bank.standard shift window).apply stems kept rest).result = .error e) :
    StandardFailure stems e ∨ ∃ name i, e = .missingSink name i := by
  induction rest generalizing kept with
  | nil => cases h
  | cons s rest ih =>
    rw [result_evaluateFrom_cons] at h
    cases hd : (evaluateStatement (Bank.standard shift window).apply stems kept s).result with
    | error e' =>
      rw [hd] at h
      cases h
      exact standardFailure_of_evaluateStatement hwindow hstems hkept hd
    | ok d =>
      rw [hd] at h
      have hnew : d.buffer.IsRegular := isRegular_of_evaluateStatement hstems hkept hd
      have hnext : ∀ d' ∈ kept ++ [d], d'.buffer.IsRegular :=
        List.forall_mem_append.mpr ⟨hkept, List.forall_mem_singleton.mpr hnew⟩
      exact ih hnext h

end Standard

end Evaluation

end Remix
