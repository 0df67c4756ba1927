import Mathlib.Data.Set.Card
import Mathlib.Order.Lattice.Nat
import Remix.Proofs.Readers
import Remix.Proofs.Supplies

/-!
# How many buffers are in store

The live count of a store goes up whenever a key is filled and down whenever a key is read for the
last time. That is the number of keys that hold a buffer, except that filling a key which holds one
already counts it again: the buffer that was there is gone, and no read counts it down any more.
`Counts` is the invariant, with the number of buffers that have been lost in this way. The peak is
the largest live count of all moments.
-/

namespace Remix.Store

/-- The keys that a read could still find something at. -/
def held (store : Store) : Set Key :=
  {key | ∃ origin, origin.key = key ∧ (store.read origin).isSome}

/-- Whether an access fills a key that holds a buffer already. -/
def overwrites (store : Store) (a : Access) : Bool :=
  match a.put? with
  | some (key, _) => (store.supply? key).isSome
  | none => false

/-- The number of buffers that a history puts in the place of others. -/
def overwritten (store : Store) : List Access → Nat
  | [] => 0
  | a :: history => (if store.overwrites a then 1 else 0) + (store.access a).overwritten history

variable {store store' start : Store} {first : Key → Option Supply} {key : Key} {origin : Origin}
  {a : Access} {p : Supply} {k : Nat}

lemma mem_held : key ∈ store.held ↔ (store.supply? key).isSome := by
  have hread : ∀ origin, (store.read origin).isSome = (store.supply? origin.key).isSome := by
    intro origin
    rw [← Option.isSome_map (f := Reading.buffer), buffer_read, Option.isSome_map]
  constructor
  · rintro ⟨origin, rfl, h⟩
    rwa [hread] at h
  · intro h
    cases key with
    | stem s => exact ⟨.stem s, rfl, by rwa [hread]⟩
    | sink i => exact ⟨.sink "" i, rfl, by rwa [hread]⟩

lemma mem_held_of_supply (h : store.supply? key = some p) : key ∈ store.held := by
  rw [mem_held, h]
  rfl

lemma held_fills (h : Fills key p store store') : store'.held = Insert.insert key store.held := by
  ext k
  rw [Set.mem_insert_iff, mem_held, mem_held, h.supply]
  by_cases hk : key = k
  · simp [hk]
  · simp [hk, Ne.symm hk]

lemma held_answers (h : Answers origin p store store') (hp : store.supply? origin.key = some p) :
    store'.held = if p.reads ≤ 1 then store.held \ {origin.key} else store.held := by
  have hless : (p.less 1).isSome = !decide (p.reads ≤ 1) := by
    unfold Supply.less
    by_cases hlast : p.reads ≤ 1
    · rw [if_neg (by omega)]
      simp [hlast]
    · rw [if_pos (by omega)]
      simp [hlast]
  ext k
  have hk : k ∈ store'.held ↔
      if origin.key = k then ¬p.reads ≤ 1 else k ∈ store.held := by
    rw [mem_held, mem_held, h.supply]
    by_cases hkey : origin.key = k
    · rw [if_pos hkey, if_pos hkey, hless]
      simp
    · rw [if_neg hkey, if_neg hkey]
  have hmem := mem_held_of_supply hp
  rw [hk]
  by_cases hkey : origin.key = k
  · subst hkey
    by_cases hlast : p.reads ≤ 1
    · simp [hlast]
    · simp [hlast, hmem]
  · by_cases hlast : p.reads ≤ 1
    · simp [hlast, hkey, Ne.symm hkey]
    · simp [hlast, hkey]

/-- The live count is the number of keys that hold a buffer and `k` more. -/
structure Counts (store : Store) (k : Nat) : Prop where
  finite : store.held.Finite
  live : store.live = store.held.ncard + k

lemma Counts.fills (h : store.Counts k) (hfills : Fills key p store store') :
    store'.Counts (k + if (store.supply? key).isSome then 1 else 0) := by
  have hheld := held_fills hfills
  refine ⟨hheld ▸ h.finite.insert key, ?_⟩
  have hlive := h.live
  rw [hfills.live, hheld]
  by_cases hkey : key ∈ store.held
  · rw [Set.insert_eq_of_mem hkey, if_pos (mem_held.mp hkey)]
    omega
  · rw [Set.ncard_insert_of_notMem hkey h.finite, if_neg (mem_held.not.mp hkey)]
    omega

lemma Counts.answers (h : store.Counts k) (hp : store.supply? origin.key = some p)
    (hanswers : Answers origin p store store') : store'.Counts k := by
  have hheld := held_answers hanswers hp
  have hlive := h.live
  have hmem := mem_held_of_supply hp
  by_cases hlast : p.reads ≤ 1
  · rw [if_pos hlast] at hheld
    have hcard := Set.ncard_sdiff_singleton_add_one hmem h.finite
    refine ⟨hheld ▸ h.finite.sdiff, ?_⟩
    rw [hanswers.live, hheld, if_pos hlast]
    omega
  · rw [if_neg hlast] at hheld
    refine ⟨hheld ▸ h.finite, ?_⟩
    rw [hanswers.live, hheld, if_neg hlast]
    exact hlive

/-- An access that overwrites a buffer is the only one that puts the count out. -/
lemma Counts.access (h : store.Counts k) (a : Access) :
    (store.access a).Counts (k + if store.overwrites a then 1 else 0) := by
  have heffect := effect_access store a
  generalize store.access a = store' at heffect ⊢
  cases heffect with
  | misses _ => exact h
  | answers hp hanswers => exact h.answers hp hanswers
  | @fills _ key p _ hp hfills =>
    -- Only here something may be lost, and only if the key held something.
    have hoverwrites : store.overwrites a = (store.supply? key).isSome := by
      rw [overwrites, hp]
    rw [hoverwrites]
    exact h.fills hfills
  | releases i name b =>
    have hheld : (store.release name).held = store.held := by
      ext key
      rw [mem_held, mem_held, supply?_release]
    exact ⟨hheld.symm ▸ h.finite, hheld.symm ▸ h.live⟩
  | ignores i name b => exact h

lemma Counts.after (h : store.Counts k) (history : List Access) :
    (store.after history).Counts (k + store.overwritten history) := by
  induction history generalizing store k with
  | nil => exact h
  | cons a history ih =>
    have hrest := ih (h.access a)
    rwa [Nat.add_assoc] at hrest

/-- A new store holds stems only, and counts each of them once. -/
lemma counts_of_stems {stems : StemMap Slot} (hstems : store.stems = stems)
    (hsinks : store.sinks = []) (hlive : store.live = stems.size) : store.Counts 0 := by
  have hheld : store.held = ((stems.stems.map Key.stem).toFinset : Set Key) := by
    ext key
    rw [mem_held, List.coe_toFinset, Set.mem_ofPred_eq, List.mem_map]
    cases key with
    | stem s => simp [supply?, hstems, StemMap.mem_stems, Option.isSome_iff_exists]
    | sink i => simp [supply?, hsinks]
  have hinjective : Function.Injective Key.stem := fun _ _ => Key.stem.inj
  refine ⟨hheld ▸ Finset.finite_toSet _, ?_⟩
  rw [hheld, Set.ncard_coe_finset, List.toFinset_card_of_nodup (stems.nodup_stems.map hinjective),
    List.length_map, hlive]
  rfl

lemma Begins.counts (h : start.Begins first) : start.Counts 0 := by
  cases h with
  | empty => exact counts_of_stems rfl rfl rfl
  | seed stems readers statements => exact counts_of_stems rfl rfl rfl

lemma Begins.peak (h : start.Begins first) : start.peak = start.live := by
  cases h with
  | empty => rfl
  | seed stems readers statements => rfl

/-- The peak follows the live count. -/
lemma peak_access (h : store.live ≤ store.peak) (a : Access) :
    (store.access a).peak = max store.peak (store.access a).live := by
  have heffect := effect_access store a
  generalize store.access a = store' at heffect ⊢
  cases heffect with
  | misses _ => rw [max_eq_left h]
  | answers _ hanswers =>
    rw [hanswers.peak, hanswers.live, max_eq_left (by omega)]
  | fills _ hfills => rw [hfills.peak, hfills.live]
  | releases i name b => exact (max_eq_left h).symm
  | ignores i name b => rw [max_eq_left h]

/-- The live count after the first `j` accesses of a history. -/
def liveAt (store : Store) (history : List Access) (j : Nat) : Nat :=
  (store.after (history.take j)).live

lemma peak_after (h : start.Begins first) (history : List Access) :
    (start.after history).peak =
        (Finset.range (history.length + 1)).sup (start.liveAt history) ∧
      (start.after history).live ≤ (start.after history).peak := by
  induction history using List.reverseRecOn with
  | nil =>
    rw [after_nil, h.peak]
    exact ⟨by simp [liveAt], le_refl _⟩
  | append_singleton history a ih =>
    obtain ⟨hpeak, hle⟩ := ih
    have hstep := peak_access hle a
    have hbefore : ∀ j ∈ Finset.range (history.length + 1),
        start.liveAt (history ++ [a]) j = start.liveAt history j := by
      intro j hj
      have hj' : j ≤ history.length := by
        rw [Finset.mem_range] at hj
        omega
      rw [liveAt, liveAt, List.take_append_of_le_length hj']
    have hlast : start.liveAt (history ++ [a]) (history ++ [a]).length =
        ((start.after history).access a).live := by
      rw [liveAt, List.take_length, after_concat]
    rw [after_concat, Finset.range_add_one, Finset.sup_insert, hlast, List.length_append,
      List.length_singleton, Finset.sup_congr rfl hbefore, ← hpeak, hstep]
    exact ⟨max_comm _ _, le_max_right _ _⟩

/-- The live count of a store is the number of sources that a read could still return and of the
buffers that have been overwritten so far, so that it is the former exactly as long as no key has
been filled that held a buffer. The peak is the largest live count so far. -/
theorem live_eq_held_add_overwritten (start : Store) (first : Key → Option Supply)
    (h : start.Begins first) (history : List Access) :
    (start.after history).live =
      (start.after history).held.ncard + start.overwritten history ∧
    ((start.after history).live = (start.after history).held.ncard ↔
      start.overwritten history = 0) ∧
    (start.after history).peak =
      (Finset.range (history.length + 1)).sup (start.liveAt history) := by
  have hcounts := (h.counts.after history).live
  rw [Nat.zero_add] at hcounts
  refine ⟨hcounts, ?_, (peak_after h history).1⟩
  rw [hcounts]
  omega

theorem live_eq_held_add_overwritten_replaced :
    sharedDrums.Begins sharedDrumsSupply ∧
    (sharedDrums.after replacing).live = (sharedDrums.after replacing).held.ncard + 1 ∧
    (sharedDrums.after replacing).peak = 3 := by
  have hbegins : sharedDrums.Begins sharedDrumsSupply := .seed _ _ 2
  have hexact := live_eq_held_add_overwritten sharedDrums sharedDrumsSupply hbegins replacing
  exact ⟨hbegins, hexact.1, hexact.2.2.trans (by decide)⟩

/-- Two sinks are put in under one statement, each for one reader. -/
def refilling : List Access :=
  [.insert 0 "dry" ⟨[[⟨1⟩]], 8000⟩ 1, .insert 0 "wet" ⟨[[⟨2⟩]], 8000⟩ 1]

/-- The live count is one more than the number of buffers that are in store. -/
theorem live_counts_overwritten :
    (empty.after refilling).live = 2 ∧ (empty.after refilling).held.ncard = 1 := by
  have hcounts := (Begins.empty.counts.after refilling).live
  have hlive : (empty.after refilling).live = 2 := by decide
  have hoverwritten : empty.overwritten refilling = 1 := by decide
  rw [hlive, hoverwritten] at hcounts
  exact ⟨hlive, by omega⟩

end Remix.Store
