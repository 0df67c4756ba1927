import Mathlib.Order.Bounds.Defs
import Mathlib.Order.Nat
import Mathlib.Tactic.Common
import Remix.Mix
import Remix.Proofs.Provenance
import Remix.Transform.Bank

/-!
# Regular buffers

What is read from a wave file has one or two channels of equal length. This file follows these
buffers to the mix: whatever a statement hands to a transform is regular, since it is a stem or has
been checked, and so is the sum of regular buffers.
-/

namespace Remix

namespace Buffer

variable {b : Buffer} {channels : List (List Sample)} {rate : UInt32}

lemma isRegular_of_lengths (hcount : channels.length = 1 ∨ channels.length = 2) {n : Nat}
    (hlengths : ∀ c ∈ channels, c.length = n) : IsRegular ⟨channels, rate⟩ := by
  refine ⟨hcount, fun c hc => ?_⟩
  rw [hlengths c hc]
  cases channels with
  | nil => cases hc
  | cons first rest => exact (hlengths first List.mem_cons_self).symm

lemma IsRegular.exists_channel (h : b.IsRegular) : ∃ c, c ∈ b.channels := by
  have hcount := h.count
  exact List.exists_mem_of_length_pos (by omega)

lemma length_deal {α : Type} (xs : List α) :
    (deal xs).1.length = (xs.length + 1) / 2 ∧ (deal xs).2.length = xs.length / 2 := by
  induction xs with
  | nil => simp [deal]
  | cons x xs ih =>
    have hdeal : deal (x :: xs) = (x :: (deal xs).2, (deal xs).1) := rfl
    rw [hdeal, List.length_cons, List.length_cons, ih.1, ih.2]
    omega

lemma isRegular_of_ofInterleaved {samples : List Sample} {layout : Layout}
    (h : ofInterleaved samples layout rate = .ok b) : b.IsRegular := by
  cases layout with
  | mono =>
    cases h
    exact isRegular_of_lengths (.inl rfl) (n := samples.length) (by simp)
  | stereo =>
    rw [ofInterleaved] at h
    by_cases heven : samples.length % 2 = 0
    · rw [if_pos heven] at h
      cases h
      obtain ⟨hleft, hright⟩ := length_deal samples
      refine isRegular_of_lengths (.inr rfl) (n := samples.length / 2) fun c hc => ?_
      rcases List.mem_pair.mp hc with rfl | rfl
      · exact hleft.trans (by omega)
      · exact hright
    · rw [if_neg heven] at h
      cases h

/-- Two buffers of one sample rate whose channels have the same lengths. -/
structure SameShape (b c : Buffer) : Prop where
  lengths : b.channels.map (·.length) = c.channels.map (·.length)
  rate : b.rate = c.rate

namespace SameShape

variable {c d : Buffer}

protected lemma refl (b : Buffer) : b.SameShape b := ⟨rfl, rfl⟩

lemma trans (h : b.SameShape c) (h' : c.SameShape d) : b.SameShape d :=
  ⟨h.lengths.trans h'.lengths, h.rate.trans h'.rate⟩

lemma symm (h : b.SameShape c) : c.SameShape b := ⟨h.lengths.symm, h.rate.symm⟩

lemma count (h : b.SameShape c) : b.channels.length = c.channels.length :=
  length_eq_of_map_eq h.lengths

lemma length (h : b.SameShape c) : b.length = c.length := by
  have hfirst : ∀ b : Buffer, b.length = (b.channels.map (·.length)).headD 0 := by
    rintro ⟨_ | ⟨c, rest⟩, rate⟩
    · rfl
    · rfl
  rw [hfirst b, hfirst c, h.lengths]

lemma isRegular (h : b.SameShape c) (hc : c.IsRegular) : b.IsRegular := by
  refine ⟨h.count ▸ hc.count, fun channel hchannel => ?_⟩
  have hmem : channel.length ∈ c.channels.map (·.length) := h.lengths ▸ List.mem_map_of_mem hchannel
  obtain ⟨other, hother, hlength⟩ := List.mem_map.mp hmem
  rw [← hlength, hc.lengths other hother, h.length]

end SameShape

/-- What keeps the length of each channel keeps the shape of a buffer. -/
lemma sameShape_map {f : List Sample → List Sample} (hf : ∀ c, (f c).length = c.length)
    (b : Buffer) : SameShape ⟨b.channels.map f, b.rate⟩ b := by
  refine ⟨?_, rfl⟩
  rw [List.map_map]
  exact List.map_congr_left fun c _ => hf c

end Buffer

namespace TimeShift

lemma turn_lt (t : TimeShift) {n : Nat} (hn : 0 < n) : t.turn n < n := by
  have hlt := Int.emod_lt_of_pos t.offset (Int.natCast_pos.mpr hn)
  unfold turn
  omega

/-- No channel of a regular buffer is too short to be turned. -/
lemma exists_apply (t : TimeShift) {b : Buffer} (hb : b.IsRegular) : ∃ c, t.apply b = .ok c := by
  unfold apply
  by_cases hempty : b.isEmpty
  · exact ⟨b, if_pos hempty⟩
  · rw [if_neg hempty]
    have hpos : 0 < b.length := by
      rw [Buffer.isEmpty, decide_eq_true_iff] at hempty
      omega
    have hnone : b.channels.find? (·.length < t.turn b.length) = none := by
      rw [List.find?_eq_none]
      intro c hc
      rw [hb.lengths c hc, decide_eq_true_iff]
      exact Nat.not_lt_of_lt (t.turn_lt hpos)
    dsimp only
    rw [hnone]
    exact ⟨_, rfl⟩

end TimeShift

lemma PitchShift.apply_ne_overturned (p : PitchShift) (b : Buffer) (length shift : Nat) :
    p.apply b ≠ .error (.overturned length shift) := by
  unfold apply
  split
  · simp
  · split
    · simp
    · split <;> simp

lemma Bank.apply_ne_overturned (bank : Bank) (a : Action) {b : Buffer} (hb : b.IsRegular)
    (length shift : Nat) : bank.apply a b ≠ .error (.overturned length shift) := by
  unfold apply
  cases bank.get? a with
  | none => simp
  | some t =>
    cases t with
    | time t =>
      obtain ⟨c, hc⟩ := t.exists_apply hb
      intro h
      change t.apply b = _ at h
      rw [hc] at h
      cases h
    | pitch p => exact p.apply_ne_overturned b length shift

/-- A regular buffer with samples. -/
structure Buffer.IsFilled (b : Buffer) : Prop extends b.IsRegular where
  length_pos : 0 < b.length

namespace StemMap

variable {P : Buffer → Prop} {stems : StemMap Buffer}

/-- All stems of a table have a property. -/
def All (P : Buffer → Prop) (stems : StemMap Buffer) : Prop :=
  ∀ s b, stems.get? s = some b → P b

/-- All stems of a table are regular. -/
def AllRegular (stems : StemMap Buffer) : Prop := stems.All Buffer.IsRegular

lemma all_empty : All P ∅ := by
  intro s b hb
  rw [get?_empty] at hb
  cases hb

lemma All.insert (h : stems.All P) (s : Stem) {b : Buffer} (hb : P b) :
    (stems.insert s b).All P := by
  intro t c hc
  rw [StemMap.insert, StemMap.get?_set] at hc
  split at hc
  · cases hc
    exact hb
  · exact h t c hc

lemma All.allRegular (h : stems.All Buffer.IsFilled) : stems.AllRegular :=
  fun s b hb => (h s b hb).toIsRegular

end StemMap

namespace Evaluation

variable {transforms : Transforms} {stems : StemMap Buffer} {kept all : List Deposit}

/-- The first call gets the buffer that the actions begin with, the others what has been checked. -/
lemma calls_applyAll {i : Nat} {rate : UInt32} {actions : List Action} {b : Buffer}
    (hb : b.IsRegular) :
    ∀ call ∈ (applyAll transforms i rate actions b).events, call.input.IsRegular := by
  induction actions generalizing b with
  | nil =>
    intro call hcall
    cases hcall
  | cons a rest ih =>
    rw [applyAll, List.foldlM_cons, bind_assoc,
      Traced.events_bind_ok (Traced.result_tell (⟨a, b⟩ : Call))]
    intro call hcall
    rcases List.mem_append.mp hcall with hfirst | hlater
    · rw [List.mem_singleton.mp hfirst]
      exact hb
    · cases hc : Execution.applyAction transforms i rate a b with
      | error e =>
        rw [hc, Traced.ofExcept_error_bind] at hlater
        cases hlater
      | ok c =>
        rw [hc, Traced.ofExcept_ok_bind] at hlater
        obtain ⟨-, -, hlayout, -⟩ := applyAction_eq_ok_iff.mp hc
        exact ih (Buffer.layoutFault?_eq_none_iff.mp hlayout) call hlater

lemma isRegular_of_input {i : Nat} {source : Source} {b : Buffer} (hstems : stems.AllRegular)
    (hkept : ∀ d ∈ kept, d.buffer.IsRegular) (h : input stems kept i source = .ok b) :
    b.IsRegular := by
  rcases input_eq_ok h with ⟨s, -, hs⟩ | ⟨d, hd, -, rfl⟩
  · exact hstems s b hs
  · exact hkept d hd

lemma calls_evaluateStatement (transforms : Transforms) (hstems : stems.AllRegular)
    (hkept : ∀ d ∈ kept, d.buffer.IsRegular) (s : Statement) :
    ∀ call ∈ (evaluateStatement transforms stems kept s).events, call.input.IsRegular := by
  unfold evaluateStatement
  cases hb : input stems kept kept.length s.source with
  | error e =>
    intro call hcall
    rw [Traced.ofExcept_error_bind] at hcall
    cases hcall
  | ok b =>
    have hcalls : ∀ call ∈ (applyAll transforms kept.length b.rate s.actions b).events,
        call.input.IsRegular := calls_applyAll (isRegular_of_input hstems hkept hb)
    intro call hcall
    rw [Traced.ofExcept_ok_bind] at hcall
    cases hc : (applyAll transforms kept.length b.rate s.actions b).result with
    | error e =>
      rw [Traced.events_bind_error hc] at hcall
      exact hcalls call hcall
    | ok c =>
      rw [Traced.events_bind_ok hc] at hcall
      exact hcalls call (by simpa using hcall)

lemma isRegular_of_evaluateStatement {s : Statement} {d : Deposit} (hstems : stems.AllRegular)
    (hkept : ∀ d ∈ kept, d.buffer.IsRegular)
    (h : (evaluateStatement transforms stems kept s).result = .ok d) : d.buffer.IsRegular := by
  obtain ⟨b, hb, hdescends⟩ := evaluateStatement_descends h
  rcases hdescends.same_or_sound with ⟨-, hsame⟩ | ⟨-, hsound⟩
  · rw [hsame]
    exact isRegular_of_input hstems hkept hb
  · exact hsound.toIsRegular

/-- From regular stems, every transform is handed regular buffers only, and every statement has a
regular result. -/
theorem calls_evaluateFrom {rest : List Statement} (hstems : stems.AllRegular)
    (hkept : ∀ d ∈ kept, d.buffer.IsRegular) :
    (∀ call ∈ (evaluateFrom transforms stems kept rest).events, call.input.IsRegular) ∧
    ∀ all, (evaluateFrom transforms stems kept rest).result = .ok all →
      ∀ d ∈ all, d.buffer.IsRegular := by
  induction rest generalizing kept with
  | nil =>
    refine ⟨fun call hcall => ?_, fun all hall => ?_⟩
    · cases hcall
    · cases hall
      exact hkept
  | cons s rest ih =>
    have hcalls := calls_evaluateStatement transforms hstems hkept s
    rw [evaluateFrom]
    cases hd : (evaluateStatement transforms stems kept s).result with
    | error e =>
      rw [Traced.events_bind_error hd, Traced.result_bind_error hd]
      refine ⟨hcalls, fun all hall => ?_⟩
      cases hall
    | ok d =>
      have hnew : d.buffer.IsRegular := isRegular_of_evaluateStatement hstems hkept hd
      have hnext : ∀ d' ∈ kept ++ [d], d'.buffer.IsRegular :=
        List.forall_mem_append.mpr ⟨hkept, List.forall_mem_singleton.mpr hnew⟩
      obtain ⟨hlater, hall⟩ := ih hnext
      rw [Traced.events_bind_ok hd, Traced.result_bind_ok hd]
      refine ⟨fun call hcall => ?_, hall⟩
      exact (List.mem_append.mp hcall).elim (hcalls call) (hlater call)

end Evaluation

namespace Execution

variable {r : Recipe} {plan : Plan} {stems : StemMap Buffer} {transforms : Transforms}

lemma isRegular_of_applying (h : Plan.ofRecipe r = .ok plan) (hstems : stems.AllRegular) {i : Nat}
    {a : Action} {b : Buffer}
    (hcall : .applying i a b ∈ (execute plan stems transforms).events) : b.IsRegular := by
  have hcalls : (⟨a, b⟩ : Call) ∈ callsOf (execute plan stems transforms).events :=
    List.mem_filterMap.mpr ⟨_, hcall, rfl⟩
  rw [(follows_execute h stems transforms).calls] at hcalls
  exact (Evaluation.calls_evaluateFrom hstems fun d hd => by cases hd).1 _ hcalls

lemma isRegular_of_saved (h : Plan.ofRecipe r = .ok plan) (hstems : stems.AllRegular)
    {out : Output} (hout : (execute plan stems transforms).result = .ok out) :
    ∀ x ∈ out.saved, x.buffer.IsRegular := by
  intro x hx
  obtain ⟨all, hall, hsaved, -⟩ := exists_evaluate h hout
  rw [hsaved] at hx
  obtain ⟨d, hd, -, hbuffer⟩ := Evaluation.mem_saved hx
  rw [← hbuffer]
  exact (Evaluation.calls_evaluateFrom hstems fun d hd => by cases hd).2 all hall d hd

end Execution

namespace Mix

lemma length_addChannel (sum channel : List Sample) :
    (addChannel sum channel).length = sum.length := by
  rw [addChannel, List.length_append, List.length_zipWith, List.length_drop]
  omega

lemma lengths_addChannels {n : Nat} {sum : List (List Sample)} (hsum : ∀ c ∈ sum, c.length = n)
    (channels : List (List Sample)) :
    (addChannels sum channels).length = sum.length ∧
      ∀ c ∈ addChannels sum channels, c.length = n := by
  constructor
  · rw [addChannels, List.length_append, List.length_zipWith, List.length_drop]
    omega
  · intro c hc
    rcases List.mem_append.mp hc with hadded | hleft
    · obtain ⟨i, hi, rfl⟩ := List.mem_iff_getElem.mp hadded
      rw [List.getElem_zipWith, length_addChannel]
      exact hsum _ (List.getElem_mem _)
    · exact hsum c (List.mem_of_mem_drop hleft)

/-- The sum has the length and the channels that are asked for, whatever is added. -/
lemma lengths_sum (inputs : List NamedBuffer) (length channels : Nat) :
    (sum inputs length channels).length = channels ∧
      ∀ c ∈ sum inputs length channels, c.length = length := by
  have hfold : ∀ acc : List (List Sample), (∀ c ∈ acc, c.length = length) →
      (inputs.foldl (fun acc x => addChannels acc (fit length channels x.buffer).channels)
        acc).length = acc.length ∧
      ∀ c ∈ inputs.foldl (fun acc x => addChannels acc (fit length channels x.buffer).channels)
        acc, c.length = length := by
    induction inputs with
    | nil => exact fun acc hacc => ⟨rfl, hacc⟩
    | cons x inputs ih =>
      intro acc hacc
      obtain ⟨hwidth, hlengths⟩ := lengths_addChannels hacc (fit length channels x.buffer).channels
      rw [List.foldl_cons, ← hwidth]
      exact ih _ hlengths
  have hsilence : ∀ c ∈ List.replicate channels (List.replicate length (0 : Sample)),
      c.length = length := by
    intro c hc
    rw [List.eq_of_mem_replicate hc, List.length_replicate]
  have hsum := hfold _ hsilence
  rwa [List.length_replicate] at hsum

lemma isGreatest_foldl_max {ns : List Nat} (hne : ns ≠ []) :
    IsGreatest {n | n ∈ ns} (ns.foldl max 0) := by
  cases ns with
  | nil => exact absurd rfl hne
  | cons n ns =>
    have hmax : (n :: ns).max? = some ((n :: ns).foldl max 0) := by
      rw [List.max?_cons', List.foldl_cons, Nat.zero_max]
    exact List.max?_eq_some_iff.mp hmax

lemma isGreatest_widest {inputs : List NamedBuffer} (hne : inputs ≠ []) :
    IsGreatest {n | ∃ x ∈ inputs, x.buffer.channels.length = n} (widest inputs) := by
  have hmap : inputs.map (·.buffer.channels.length) ≠ [] := List.map_eq_nil_iff.not.mpr hne
  have hgreatest := isGreatest_foldl_max hmap
  simp only [List.mem_map] at hgreatest
  exact hgreatest

lemma isGreatest_longest_channel {inputs : List NamedBuffer}
    (hchannel : ∃ x ∈ inputs, ∃ channel, channel ∈ x.buffer.channels) :
    IsGreatest {n | ∃ x ∈ inputs, ∃ channel ∈ x.buffer.channels, channel.length = n}
      (longest inputs) := by
  have hmem : ∀ n, n ∈ (inputs.flatMap fun x => x.buffer.channels.map (·.length)) ↔
      ∃ x ∈ inputs, ∃ channel ∈ x.buffer.channels, channel.length = n := by
    intro n
    simp only [List.mem_flatMap, List.mem_map]
  obtain ⟨x, hx, channel, hc⟩ := hchannel
  have hlength := (hmem channel.length).mpr ⟨x, hx, channel, hc, rfl⟩
  have hgreatest := isGreatest_foldl_max (List.ne_nil_of_mem hlength)
  simp only [hmem] at hgreatest
  exact hgreatest

lemma isGreatest_longest {inputs : List NamedBuffer} (hne : inputs ≠ [])
    (h : ∀ x ∈ inputs, x.buffer.IsRegular) :
    IsGreatest {n | ∃ x ∈ inputs, x.buffer.length = n} (longest inputs) := by
  obtain ⟨x, hx⟩ := List.exists_mem_of_ne_nil inputs hne
  obtain ⟨⟨y, hy, c, hc, hlength⟩, hupper⟩ :=
    isGreatest_longest_channel ⟨x, hx, (h x hx).exists_channel⟩
  refine ⟨⟨y, hy, ((h y hy).lengths c hc).symm.trans hlength⟩, ?_⟩
  rintro n ⟨z, hz, rfl⟩
  obtain ⟨d, hd⟩ := (h z hz).exists_channel
  exact hupper ⟨z, hz, d, hd, (h z hz).lengths d hd⟩

lemma widest_of_regular {inputs : List NamedBuffer} (hne : inputs ≠ [])
    (h : ∀ x ∈ inputs, x.buffer.IsRegular) : widest inputs = 1 ∨ widest inputs = 2 := by
  obtain ⟨x, hx, hwidth⟩ := (isGreatest_widest hne).1
  rw [← hwidth]
  exact (h x hx).count

lemma isRegular_sum {inputs : List NamedBuffer} (hne : inputs ≠ [])
    (h : ∀ x ∈ inputs, x.buffer.IsRegular) (rate : UInt32) :
    Buffer.IsRegular ⟨sum inputs (longest inputs) (widest inputs), rate⟩ := by
  obtain ⟨hwidth, hlengths⟩ := lengths_sum inputs (longest inputs) (widest inputs)
  refine Buffer.isRegular_of_lengths ?_ hlengths
  rw [hwidth]
  exact widest_of_regular hne h

lemma sameShape_scale (gain : Float32) (b : Buffer) : (b.scale gain).SameShape b :=
  Buffer.sameShape_map (fun _ => List.length_map _) b

lemma level_of_lt {b : Buffer} {c : Float32} (h : c < b.peak) :
    (level (some c) b).result = .ok (b.scale (c / b.peak), c / b.peak) := by
  unfold level
  dsimp only
  rw [if_pos h]
  rfl

lemma level_of_not_lt {b : Buffer} {ceiling : Option Float32} (h : ∀ c ∈ ceiling, ¬c < b.peak) :
    (level ceiling b).result = .ok (b, 1) := by
  unfold level
  cases ceiling with
  | none =>
    dsimp only
    split <;> rfl
  | some c =>
    dsimp only
    rw [if_neg (h c rfl)]
    rfl

/-- Bringing a mix to its level always succeeds, and keeps its shape. -/
lemma exists_level (ceiling : Option Float32) (b : Buffer) :
    ∃ leveled gain, (level ceiling b).result = .ok (leveled, gain) ∧ leveled.SameShape b := by
  by_cases hloud : ∃ c ∈ ceiling, c < b.peak
  · obtain ⟨c, rfl, hc⟩ := hloud
    exact ⟨_, _, level_of_lt hc, sameShape_scale _ b⟩
  · exact ⟨b, 1, level_of_not_lt (by simpa using hloud), .refl b⟩

end Mix

lemma mix_of_level {first : NamedBuffer} {rest : List NamedBuffer} {ceiling : Option Float32}
    {leveled : Buffer} {gain : Float32}
    (hrate : (first :: rest).find? (·.buffer.rate ≠ first.buffer.rate) = none)
    (hlevel : (Mix.level ceiling ⟨Mix.sum (first :: rest) (Mix.longest (first :: rest))
      (Mix.widest (first :: rest)), first.buffer.rate⟩).result = .ok (leveled, gain)) :
    (mix (first :: rest) ceiling).result =
      .ok ⟨leveled, (first :: rest).map (·.name), gain⟩ := by
  rw [mix, hrate]
  dsimp only
  rw [Traced.result_bind_ok (Traced.result_tell _), Traced.result_bind_ok hlevel]
  rfl

/-- Buffers of one sample rate have a mix of the length and width that are reckoned beforehand. -/
lemma exists_shaped_mix {first : NamedBuffer} {rest : List NamedBuffer} (ceiling : Option Float32)
    (hrate : (first :: rest).find? (·.buffer.rate ≠ first.buffer.rate) = none) :
    ∃ track, (mix (first :: rest) ceiling).result = .ok track ∧
      track.buffer.SameShape ⟨Mix.sum (first :: rest) (Mix.longest (first :: rest))
        (Mix.widest (first :: rest)), first.buffer.rate⟩ := by
  obtain ⟨leveled, gain, hlevel, hshape⟩ := Mix.exists_level ceiling
    ⟨Mix.sum (first :: rest) (Mix.longest (first :: rest)) (Mix.widest (first :: rest)),
      first.buffer.rate⟩
  exact ⟨_, mix_of_level hrate hlevel, hshape⟩

/-- Regular buffers of one sample rate have a regular mix of that rate. -/
theorem exists_mix {first : NamedBuffer} {rest : List NamedBuffer} (ceiling : Option Float32)
    (hrate : (first :: rest).find? (·.buffer.rate ≠ first.buffer.rate) = none)
    (h : ∀ x ∈ first :: rest, x.buffer.IsRegular) :
    ∃ track, (mix (first :: rest) ceiling).result = .ok track ∧
      track.buffer.rate = first.buffer.rate ∧ track.buffer.IsRegular := by
  obtain ⟨track, htrack, hshape⟩ := exists_shaped_mix ceiling hrate
  have hsum := Mix.isRegular_sum (List.cons_ne_nil first rest) h first.buffer.rate
  exact ⟨track, htrack, hshape.rate, hshape.isRegular hsum⟩

end Remix
