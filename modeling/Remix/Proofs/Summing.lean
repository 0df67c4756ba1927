import Mathlib.Data.List.Induction
import Mathlib.Data.List.OfFn
import Remix.Proofs.Peaks
import Remix.Proofs.Regularity

/-!
# What a mix is the sum of

`Buffer.sampleAt` says what a buffer gives to a place of the mix: its last channel stands for those
that it lacks, and silence for what is behind the end of a channel. `Mix.IsSum` says by places what
the mix is before it is brought to its level. The sum that is reckoned channel by channel, with
buffers that are padded and doubled first, has these samples at these places, and no others.
-/

namespace Remix

/-- What a buffer gives to sample `i` of channel `c` of a mix. -/
def Buffer.sampleAt (b : Buffer) (c i : Nat) : Sample :=
  (b.channels.getD (min c (b.channels.length - 1)) []).getD i 0

namespace Mix

/-- Sample `i` of channel `c` of a mix, before it is scaled: what the buffers give is added up from
the first to the last. -/
def total (inputs : List NamedBuffer) (c i : Nat) : Sample :=
  inputs.foldl (fun sum x => sum + x.buffer.sampleAt c i) 0

/-- `b` is the sum of buffers of one rate, as wide as the widest and as long as the longest channel
of them. -/
structure IsSum (inputs : List NamedBuffer) (b : Buffer) : Prop where
  rate : ∀ x ∈ inputs, x.buffer.rate = b.rate
  width : IsGreatest {n | ∃ x ∈ inputs, x.buffer.channels.length = n} b.channels.length
  length : ∃ n, IsGreatest {n | ∃ x ∈ inputs, ∃ channel ∈ x.buffer.channels, channel.length = n} n ∧
    ∀ channel ∈ b.channels, channel.length = n
  sample : ∀ c (hc : c < b.channels.length) i (hi : i < b.channels[c].length),
    b.channels[c][i] = total inputs c i

/-- `track` is the sum `b` of buffers, scaled to a ceiling if its peak exceeds one. -/
structure IsLeveled (inputs : List NamedBuffer) (ceiling : Option Float32) (b : Buffer)
    (track : Track) : Prop where
  sources : track.sources = inputs.map (·.name)
  scaled : ∀ c ∈ ceiling, c < b.peak → track.gain = c / b.peak ∧ track.buffer =
    ⟨b.channels.map fun channel => channel.map (· * .ofComputed (c / b.peak)), b.rate⟩
  plain : (∀ c ∈ ceiling, ¬c < b.peak) → track.gain = 1 ∧ track.buffer = b

variable {inputs : List NamedBuffer} {b : Buffer} {length channels : Nat}

lemma addChannel_ofFn (f g : Nat → Sample) (n : Nat) :
    addChannel (List.ofFn fun i : Fin n => f i) (List.ofFn fun i : Fin n => g i) =
      List.ofFn fun i : Fin n => f i + g i := by
  unfold addChannel
  rw [List.drop_of_length_le (by simp), List.append_nil]
  apply List.ext_getElem
  · simp
  · intro i hi hi'
    simp

lemma addChannels_ofFn (f g : Nat → Nat → Sample) (m n : Nat) :
    addChannels (List.ofFn fun c : Fin m => List.ofFn fun i : Fin n => f c i)
        (List.ofFn fun c : Fin m => List.ofFn fun i : Fin n => g c i) =
      List.ofFn fun c : Fin m => List.ofFn fun i : Fin n => f c i + g c i := by
  unfold addChannels
  rw [List.drop_of_length_le (by simp), List.append_nil]
  apply List.ext_getElem
  · simp
  · intro c hc hc'
    simp only [List.getElem_zipWith, List.getElem_ofFn]
    exact addChannel_ofFn (f c) (g c) n

lemma padded_eq_ofFn {n : Nat} {channel : List Sample} (h : channel.length ≤ n) :
    channel ++ List.replicate (n - channel.length) 0 =
      List.ofFn fun i : Fin n => channel.getD i 0 := by
  apply List.ext_getElem
  · simp only [List.length_append, List.length_replicate, List.length_ofFn]
    omega
  · intro i hi hi'
    rw [List.getElem_ofFn, List.getElem_append]
    by_cases hend : i < channel.length
    · simp [hend]
    · simp [hend]

/-- A buffer that is brought to the width and length of a mix has the samples that it gives to its
places. -/
lemma fit_eq_ofFn (hcount : b.channels.length = 1 ∨ b.channels.length = 2)
    (hwidth : b.channels.length ≤ channels) (hchannels : channels ≤ 2)
    (hlengths : ∀ channel ∈ b.channels, channel.length ≤ length) :
    (fit length channels b).channels =
      List.ofFn fun c : Fin channels => List.ofFn fun i : Fin length => b.sampleAt c i := by
  obtain ⟨list, rate⟩ := b
  rcases hcount with hone | htwo
  · obtain ⟨mono, rfl⟩ := List.length_eq_one_iff.mp hone
    have hmono := padded_eq_ofFn (hlengths mono (by simp))
    have hcases : channels = 1 ∨ channels = 2 := by
      simp only [List.length_singleton] at hwidth
      omega
    rcases hcases with rfl | rfl
    · simp [fit, Buffer.padTo, Buffer.sampleAt, hmono]
    · simp [fit, Buffer.padTo, Buffer.toStereo, Buffer.sampleAt, hmono, List.ofFn_succ]
  · obtain ⟨left, right, rfl⟩ := List.length_eq_two.mp htwo
    have hleft := padded_eq_ofFn (hlengths left (by simp))
    have hright := padded_eq_ofFn (hlengths right (by simp))
    have hcases : channels = 2 := by
      simp only [List.length_cons, List.length_nil] at hwidth
      omega
    subst hcases
    simp [fit, Buffer.padTo, Buffer.sampleAt, hleft, hright]

/-- The sum of buffers, place by place. -/
lemma sum_eq_ofFn
    (hcount : ∀ x ∈ inputs, x.buffer.channels.length = 1 ∨ x.buffer.channels.length = 2)
    (hwidth : ∀ x ∈ inputs, x.buffer.channels.length ≤ channels) (hchannels : channels ≤ 2)
    (hlengths : ∀ x ∈ inputs, ∀ channel ∈ x.buffer.channels, channel.length ≤ length) :
    sum inputs length channels =
      List.ofFn fun c : Fin channels => List.ofFn fun i : Fin length => total inputs c i := by
  -- From the right, since the last buffer is the last one that is added.
  induction inputs using List.reverseRecOn with
  | nil =>
    simp [sum, total]
  | append_singleton inputs x ih =>
    have hx : x ∈ inputs ++ [x] := by simp
    have hold : ∀ y ∈ inputs, y ∈ inputs ++ [x] := by
      intro y hy
      exact List.mem_append_left _ hy
    have hsum := ih (fun y hy => hcount y (hold y hy)) (fun y hy => hwidth y (hold y hy))
      (fun y hy => hlengths y (hold y hy))
    have hfit := fit_eq_ofFn (hcount x hx) (hwidth x hx) hchannels (hlengths x hx)
    have htotal : ∀ c i, total (inputs ++ [x]) c i = total inputs c i + x.buffer.sampleAt c i := by
      intro c i
      simp [total]
    unfold sum at hsum ⊢
    rw [List.foldl_append, List.foldl_cons, List.foldl_nil, hsum, hfit, addChannels_ofFn]
    simp only [htotal]

/-- The sum that a mix reckons is the sum of its buffers. -/
lemma isSum_sum (hne : inputs ≠ [])
    (hcount : ∀ x ∈ inputs, x.buffer.channels.length = 1 ∨ x.buffer.channels.length = 2)
    {rate : UInt32} (hrate : ∀ x ∈ inputs, x.buffer.rate = rate) :
    IsSum inputs ⟨sum inputs (longest inputs) (widest inputs), rate⟩ := by
  have hwidest := isGreatest_widest hne
  have hchannels : widest inputs ≤ 2 := by
    obtain ⟨x, hx, hwidth⟩ := hwidest.1
    have hx' := hcount x hx
    omega
  have hlongest : IsGreatest {n | ∃ x ∈ inputs, ∃ channel ∈ x.buffer.channels, channel.length = n}
      (longest inputs) := by
    apply isGreatest_longest_channel
    obtain ⟨x, hx⟩ := List.exists_mem_of_ne_nil inputs hne
    have hx' := hcount x hx
    exact ⟨x, hx, List.exists_mem_of_length_pos (by omega)⟩
  have hwidth : ∀ x ∈ inputs, x.buffer.channels.length ≤ widest inputs := by
    intro x hx
    exact hwidest.2 ⟨x, hx, rfl⟩
  have hlength : ∀ x ∈ inputs, ∀ channel ∈ x.buffer.channels, channel.length ≤ longest inputs := by
    intro x hx channel hc
    exact hlongest.2 ⟨x, hx, channel, hc, rfl⟩
  rw [sum_eq_ofFn hcount hwidth hchannels hlength]
  refine ⟨hrate, ?_, ⟨longest inputs, hlongest, ?_⟩, ?_⟩
  · simpa using hwidest
  · intro channel hc
    obtain ⟨c, rfl⟩ := List.mem_ofFn.mp hc
    exact List.length_ofFn
  · intro c hc i hi
    simp

lemma exists_leveled (inputs : List NamedBuffer) (ceiling : Option Float32) (b : Buffer) :
    ∃ leveled gain, (level ceiling b).result = .ok (leveled, gain) ∧
      IsLeveled inputs ceiling b ⟨leveled, inputs.map (·.name), gain⟩ := by
  by_cases hloud : ∃ c ∈ ceiling, c < b.peak
  · obtain ⟨c, rfl, hc⟩ := hloud
    refine ⟨_, _, level_of_lt hc, rfl, ?_, ?_⟩
    · rintro _ ⟨⟩ -
      exact ⟨rfl, rfl⟩
    · intro hquiet
      exact absurd hc (hquiet c rfl)
  · have hquiet : ∀ c ∈ ceiling, ¬c < b.peak := by simpa using hloud
    refine ⟨b, 1, level_of_not_lt hquiet, rfl, ?_, fun _ => ⟨rfl, rfl⟩⟩
    intro c hc hlt
    exact absurd hlt (hquiet c hc)

end Mix

/-- `first` is the first of some buffers, and `other` the first of those that have another rate. -/
structure Mix.Differ (inputs : List NamedBuffer) (first other : NamedBuffer) : Prop where
  head : inputs.head? = some first
  other : ∃ before behind, inputs = before ++ other :: behind ∧
    (∀ x ∈ before, x.buffer.rate = first.buffer.rate) ∧ other.buffer.rate ≠ first.buffer.rate

section Rates

variable {inputs : List NamedBuffer} {first other : NamedBuffer}

lemma Mix.Differ.find_eq (h : Differ inputs first other) :
    inputs.find? (·.buffer.rate ≠ first.buffer.rate) = some other := by
  obtain ⟨before, behind, hinputs, hbefore, hother⟩ := h.other
  rw [List.find?_eq_some_iff_append]
  exact ⟨by simpa using hother, before, behind, hinputs, by simpa using hbefore⟩

lemma Mix.Differ.unique (h : Differ inputs first other) {first' other' : NamedBuffer}
    (h' : Differ inputs first' other') : first = first' ∧ other = other' := by
  have hfirst : first = first' := Option.some.inj (h.head.symm.trans h'.head)
  subst hfirst
  exact ⟨rfl, Option.some.inj (h.find_eq.symm.trans h'.find_eq)⟩

lemma Mix.exists_differ (h : ∃ x ∈ inputs, ∃ y ∈ inputs, x.buffer.rate ≠ y.buffer.rate) :
    ∃ first other, Differ inputs first other := by
  obtain ⟨x, hx, y, hy, hxy⟩ := h
  obtain ⟨first, rest, rfl⟩ := List.exists_cons_of_ne_nil (List.ne_nil_of_mem hx)
  cases hother : (first :: rest).find? (·.buffer.rate ≠ first.buffer.rate) with
  | none =>
    have hrates : ∀ z ∈ first :: rest, z.buffer.rate = first.buffer.rate := by
      simpa using hother
    exact absurd ((hrates x hx).trans (hrates y hy).symm) hxy
  | some other =>
    obtain ⟨hdiffers, before, behind, hinputs, hbefore⟩ :=
      List.find?_eq_some_iff_append.mp hother
    exact ⟨first, other, rfl, before, behind, hinputs, by simpa using hbefore,
      by simpa using hdiffers⟩

lemma Mix.Differ.exists_ne (h : Differ inputs first other) :
    ∃ x ∈ inputs, ∃ y ∈ inputs, x.buffer.rate ≠ y.buffer.rate := by
  obtain ⟨before, behind, hinputs, -, hdiffers⟩ := h.other
  have hother : other ∈ inputs := by
    rw [hinputs]
    exact List.mem_append_right _ List.mem_cons_self
  exact ⟨other, hother, first, List.mem_of_head? h.head, hdiffers⟩

lemma mix_of_differ (h : Mix.Differ inputs first other) (ceiling : Option Float32) :
    (mix inputs ceiling).result = .error (.incompatibleRate
      s!"mix of '{first.name}' and '{other.name}'" first.buffer.rate other.buffer.rate) := by
  obtain ⟨rest, rfl⟩ := List.head?_eq_some_iff.mp h.head
  rw [mix, h.find_eq]
  rfl

lemma mix_of_leveled {ceiling : Option Float32} {rate : UInt32} {leveled : Buffer} {gain : Float32}
    (hne : inputs ≠ []) (hrate : ∀ x ∈ inputs, x.buffer.rate = rate)
    (hlevel : (Mix.level ceiling ⟨Mix.sum inputs (Mix.longest inputs) (Mix.widest inputs),
      rate⟩).result = .ok (leveled, gain)) :
    (mix inputs ceiling).result = .ok ⟨leveled, inputs.map (·.name), gain⟩ := by
  obtain ⟨first, rest, rfl⟩ := List.exists_cons_of_ne_nil hne
  have hfirst : first.buffer.rate = rate := hrate first List.mem_cons_self
  have hfind : (first :: rest).find? (·.buffer.rate ≠ first.buffer.rate) = none := by
    rw [hfirst]
    simpa using hrate
  rw [← hfirst] at hlevel
  exact mix_of_level hfind hlevel

/-- What can come of a mix. -/
inductive Mix.Outcome (inputs : List NamedBuffer) (ceiling : Option Float32) :
    Except RuntimeError Track → Prop where
  | nothing (h : inputs = []) : Outcome inputs ceiling (.error .nothingToMix)
  | differ {first other : NamedBuffer} (h : Differ inputs first other) :
      Outcome inputs ceiling (.error (.incompatibleRate
        s!"mix of '{first.name}' and '{other.name}'" first.buffer.rate other.buffer.rate))
  | mixed {b : Buffer} {track : Track} (hne : inputs ≠ []) (hsum : IsSum inputs b)
      (hleveled : IsLeveled inputs ceiling b track) : Outcome inputs ceiling (.ok track)

lemma outcome_mix (h : ∀ x ∈ inputs, x.buffer.channels.length = 1 ∨ x.buffer.channels.length = 2)
    (ceiling : Option Float32) : Mix.Outcome inputs ceiling (mix inputs ceiling).result := by
  by_cases hne : inputs = []
  · subst hne
    exact .nothing rfl
  · by_cases hdiffer : ∃ x ∈ inputs, ∃ y ∈ inputs, x.buffer.rate ≠ y.buffer.rate
    · obtain ⟨first, other, hother⟩ := Mix.exists_differ hdiffer
      rw [mix_of_differ hother ceiling]
      exact .differ hother
    · obtain ⟨x, hx⟩ := List.exists_mem_of_ne_nil inputs hne
      have hrate : ∀ y ∈ inputs, y.buffer.rate = x.buffer.rate := by
        intro y hy
        by_contra hyx
        exact hdiffer ⟨y, hy, x, hx, hyx⟩
      obtain ⟨leveled, gain, hlevel, hleveled⟩ := Mix.exists_leveled inputs ceiling
        ⟨Mix.sum inputs (Mix.longest inputs) (Mix.widest inputs), x.buffer.rate⟩
      rw [mix_of_leveled hne hrate hlevel]
      exact .mixed hne (Mix.isSum_sum hne h hrate) hleveled

namespace Mix.Outcome

variable {ceiling : Option Float32} {result : Except RuntimeError Track}

/-! The outcomes exclude each other, so that each error tells which of them it is. -/

lemma eq_nothingToMix_iff (h : Outcome inputs ceiling result) :
    result = .error .nothingToMix ↔ inputs = [] := by
  constructor
  · intro hresult
    cases h with
    | nothing hnil => exact hnil
    | differ _ => cases hresult
    | mixed _ _ _ => cases hresult
  · intro hnil
    cases h with
    | nothing _ => rfl
    | differ hdiffer =>
      have hhead := hdiffer.head
      rw [hnil] at hhead
      cases hhead
    | mixed hne _ _ => exact absurd hnil hne

lemma eq_incompatibleRate_iff (h : Outcome inputs ceiling result) (context : String)
    (expected found : UInt32) :
    result = .error (.incompatibleRate context expected found) ↔
      ∃ first other, Differ inputs first other ∧
        context = s!"mix of '{first.name}' and '{other.name}'" ∧
        expected = first.buffer.rate ∧ found = other.buffer.rate := by
  constructor
  · intro hresult
    cases h with
    | nothing _ => cases hresult
    | differ hdiffer =>
      cases hresult
      exact ⟨_, _, hdiffer, rfl, rfl, rfl⟩
    | mixed _ _ _ => cases hresult
  · rintro ⟨first, other, hdiffer, rfl, rfl, rfl⟩
    cases h with
    | nothing hnil =>
      have hhead := hdiffer.head
      rw [hnil] at hhead
      cases hhead
    | differ hdiffer' =>
      obtain ⟨rfl, rfl⟩ := hdiffer.unique hdiffer'
      rfl
    | mixed _ hsum _ =>
      obtain ⟨x, hx, y, hy, hxy⟩ := hdiffer.exists_ne
      exact absurd ((hsum.rate x hx).trans (hsum.rate y hy).symm) hxy

lemma exists_incompatibleRate_iff (h : Outcome inputs ceiling result) :
    (∃ context expected found, result = .error (.incompatibleRate context expected found)) ↔
      ∃ x ∈ inputs, ∃ y ∈ inputs, x.buffer.rate ≠ y.buffer.rate := by
  constructor
  · rintro ⟨context, expected, found, hresult⟩
    obtain ⟨first, other, hdiffer, -⟩ := (h.eq_incompatibleRate_iff _ _ _).mp hresult
    exact hdiffer.exists_ne
  · intro hrates
    obtain ⟨first, other, hdiffer⟩ := exists_differ hrates
    exact ⟨_, _, _, (h.eq_incompatibleRate_iff _ _ _).mpr ⟨first, other, hdiffer, rfl, rfl, rfl⟩⟩

lemma exists_track (h : Outcome inputs ceiling result) (hne : inputs ≠ [])
    (hrates : ∀ x ∈ inputs, ∀ y ∈ inputs, x.buffer.rate = y.buffer.rate) :
    ∃ b track, IsSum inputs b ∧ b.IsPeak b.peak ∧ IsLeveled inputs ceiling b track ∧
      result = .ok track := by
  cases h with
  | nothing hnil => exact absurd hnil hne
  | differ hdiffer =>
    obtain ⟨x, hx, y, hy, hxy⟩ := hdiffer.exists_ne
    exact absurd (hrates x hx y hy) hxy
  | mixed _ hsum hleveled => exact ⟨_, _, hsum, Buffer.isPeak_peak _, hleveled, rfl⟩

end Mix.Outcome

end Rates

/-- A mono buffer beside a stereo one with channels of two lengths. -/
def monoBesideStereo : List NamedBuffer :=
  [⟨"mono", ⟨[[⟨0x3F000000⟩, ⟨0x3F000000⟩]], 8000⟩⟩,
    ⟨"stereo", ⟨[[⟨0x3F000000⟩], [⟨0x3F800000⟩, ⟨0x3E800000⟩, ⟨0xBF000000⟩]], 8000⟩⟩]

/-- What a mix of buffers with one or two channels is. Without buffers there is none, and none of
buffers that differ in their rates, where the error names the first buffer and the first one that
differs from it. All others have one: the sum of the buffers, place by place, which is scaled by one
gain if its peak exceeds the ceiling and otherwise left as it is. -/
theorem mix_exact (inputs : List NamedBuffer) (ceiling : Option Float32)
    (h : ∀ x ∈ inputs, x.buffer.channels.length = 1 ∨ x.buffer.channels.length = 2) :
    ((mix inputs ceiling).result = .error .nothingToMix ↔ inputs = []) ∧
    (∀ context expected found,
      (mix inputs ceiling).result = .error (.incompatibleRate context expected found) ↔
        ∃ first other, Mix.Differ inputs first other ∧
          context = s!"mix of '{first.name}' and '{other.name}'" ∧
          expected = first.buffer.rate ∧ found = other.buffer.rate) ∧
    ((∃ context expected found,
      (mix inputs ceiling).result = .error (.incompatibleRate context expected found)) ↔
        ∃ x ∈ inputs, ∃ y ∈ inputs, x.buffer.rate ≠ y.buffer.rate) ∧
    (inputs ≠ [] → (∀ x ∈ inputs, ∀ y ∈ inputs, x.buffer.rate = y.buffer.rate) →
      ∃ b track, Mix.IsSum inputs b ∧ b.IsPeak b.peak ∧
        Mix.IsLeveled inputs ceiling b track ∧ (mix inputs ceiling).result = .ok track) := by
  have houtcome := outcome_mix h ceiling
  exact ⟨houtcome.eq_nothingToMix_iff, houtcome.eq_incompatibleRate_iff,
    houtcome.exists_incompatibleRate_iff, houtcome.exists_track⟩

theorem mix_exact_monoBesideStereo :
    (∀ x ∈ monoBesideStereo, x.buffer.channels.length = 1 ∨ x.buffer.channels.length = 2) ∧
    ∃ b track, Mix.IsSum monoBesideStereo b ∧ b.IsPeak b.peak ∧
      Mix.IsLeveled monoBesideStereo (some 1) b track ∧
      (mix monoBesideStereo (some 1)).result = .ok track := by
  have hcounts : ∀ x ∈ monoBesideStereo,
      x.buffer.channels.length = 1 ∨ x.buffer.channels.length = 2 := by decide
  obtain ⟨-, -, -, hmixed⟩ := mix_exact monoBesideStereo (some 1) hcounts
  exact ⟨hcounts, hmixed (by decide) (by decide)⟩

end Remix
