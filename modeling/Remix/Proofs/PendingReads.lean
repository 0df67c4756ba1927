import Remix.Proofs.Evaluation
import Remix.Proofs.Lifetime

/-!
# Reads to come

The store counts down the reads of each buffer. `Store.Holds` says what the counters mean: with the
statements `rest` still to run, the store holds exactly the stems and sinks that `rest` reads, each
with the number of its reads in `rest`. Every operation that an execution applies to the store keeps
this invariant, and a read that it allows gives the buffer that an evaluation would take.
-/

namespace Remix

/-- The slot of a buffer with `n` reads to come. A buffer that nobody reads has none. -/
def Slot.pending? (b : Buffer) (n : Nat) : Option Slot := if n = 0 then none else some ⟨b, n⟩

def Deposit.slot? (d : Deposit) (n : Nat) : Option SinkSlot :=
  (Slot.pending? d.buffer n).map fun slot => ⟨slot, d.sink.name, d.sink.saved⟩

@[simp] lemma Deposit.slot?_zero (d : Deposit) : d.slot? 0 = none := rfl

@[simp] lemma Deposit.slot?_succ (d : Deposit) (n : Nat) :
    d.slot? (n + 1) = some ⟨⟨d.buffer, n + 1⟩, d.sink.name, d.sink.saved⟩ := rfl

namespace Store

/-- The store holds what the statements `rest` still read of the stems and of the deposits so
far. -/
structure Holds (store : Store) (stems : StemMap Buffer) (kept : List Deposit)
    (rest : List PlannedStatement) : Prop where
  stem : ∀ s, store.stems.get? s =
    (stems.get? s).bind fun b => Slot.pending? b (Plan.stemReads rest s)
  sink : ∀ i, store.sinks.lookup i = kept[i]?.bind fun d => d.slot? (Plan.sinkReaders rest i)

lemma lookup_cons_eq_ite {β : Type} (sinks : List (Nat × β)) (i j : Nat) (slot : β) :
    ((i, slot) :: sinks).lookup j = if j = i then some slot else sinks.lookup j := by
  rw [List.lookup_cons]
  by_cases hj : j = i
  · simp [hj]
  · have hb : (j == i) = false := by simpa using hj
    simp [hb, hj]

lemma lookup_withoutSink (sinks : List (Nat × SinkSlot)) (i j : Nat) :
    (withoutSink sinks i).lookup j = if j = i then none else sinks.lookup j := by
  induction sinks with
  | nil => simp [withoutSink]
  | cons entry sinks ih =>
    obtain ⟨k, slot⟩ := entry
    unfold withoutSink at ih ⊢
    by_cases hk : k = i
    · subst hk
      rw [List.filter_cons_of_neg (by simp), ih, lookup_cons_eq_ite]
      by_cases hj : j = k
      · rw [if_pos hj, if_pos hj]
      · rw [if_neg hj, if_neg hj, if_neg hj]
    · rw [List.filter_cons_of_pos (by simpa using hk), lookup_cons_eq_ite, lookup_cons_eq_ite, ih]
      by_cases hj : j = k
      · subst hj
        rw [if_pos rfl, if_neg hk, if_pos rfl]
      · rw [if_neg hj, if_neg hj]

variable {store : Store} {stems : StemMap Buffer} {kept : List Deposit} {q : PlannedStatement}
  {rest : List PlannedStatement}

lemma holds_seed (stems : StemMap Buffer) (statements : List PlannedStatement) (n : Nat) :
    (seed stems (.ofFn (Plan.stemReaders? statements)) n).Holds stems [] statements := by
  constructor
  · intro s
    simp only [seed, StemMap.get?_ofFn]
    change _ = (stems.get? s).bind fun b => Slot.pending? b (statements.countP (·.origin = .stem s))
    have hreaders : Plan.stemReaders? statements s =
        if statements.countP (·.origin = .stem s) = 0 then none
        else some (statements.countP (·.origin = .stem s)) := rfl
    rw [hreaders]
    cases stems.get? s with
    | none => rfl
    | some b => cases statements.countP (·.origin = .stem s) <;> rfl
  · intro i
    rfl

/-- A read of a stem gives its buffer and counts one read down. -/
lemma Holds.read_stem (h : store.Holds stems kept (q :: rest)) {s : Stem} {b : Buffer}
    (hq : q.origin = .stem s) (hb : stems.get? s = some b) :
    ∃ reading, store.read q.origin = some reading ∧ reading.buffer = b ∧
      reading.store.Holds stems kept rest ∧ reading.store.statements = store.statements := by
  have hslot : store.stems.get? s = some ⟨b, Plan.stemReads rest s + 1⟩ := by
    rw [h.stem s, hb, Plan.stemReads_cons, hq, if_pos rfl]
    rfl
  have hother : ∀ t, s ≠ t → Plan.stemReads (q :: rest) t = Plan.stemReads rest t := by
    intro t ht
    rw [Plan.stemReads_cons, hq, if_neg (by simpa using ht)]
    rfl
  have hsinks : ∀ i, store.sinks.lookup i =
      kept[i]?.bind fun d => d.slot? (Plan.sinkReaders rest i) := by
    intro i
    rw [h.sink i, Plan.sinkReaders_cons, hq]
    rfl
  -- The last read erases the slot and any other puts a smaller one in: both set what is pending.
  have hstems : ∀ slot, slot = Slot.pending? b (Plan.stemReads rest s) → ∀ t,
      (store.stems.set s slot).get? t =
        (stems.get? t).bind fun c => Slot.pending? c (Plan.stemReads rest t) := by
    rintro slot rfl t
    rw [StemMap.get?_set]
    by_cases ht : s = t
    · subst ht
      rw [if_pos rfl, hb]
      rfl
    · rw [if_neg ht, h.stem t, hother t ht]
  rw [hq, read, readStem, hslot, Option.map_some]
  refine ⟨_, rfl, ?_⟩
  cases hn : Plan.stemReads rest s with
  | zero => exact ⟨rfl, ⟨hstems none (by rw [hn]; rfl), hsinks⟩, rfl⟩
  | succ n => exact ⟨rfl, ⟨hstems (some ⟨b, n + 1⟩) (by rw [hn]; rfl), hsinks⟩, rfl⟩

lemma Holds.read_sink (h : store.Holds stems kept (q :: rest)) {name : String} {j : Nat}
    {d : Deposit} (hq : q.origin = .sink name j) (hd : kept[j]? = some d) :
    ∃ reading, store.read q.origin = some reading ∧ reading.buffer = d.buffer ∧
      reading.store.Holds stems kept rest ∧ reading.store.statements = store.statements := by
  have hslot : store.sinks.lookup j =
      some ⟨⟨d.buffer, Plan.sinkReaders rest j + 1⟩, d.sink.name, d.sink.saved⟩ := by
    rw [h.sink j, hd, Plan.sinkReaders_cons, hq]
    simp [Origin.readsSink]
  have hstems : ∀ s, store.stems.get? s =
      (stems.get? s).bind fun b => Slot.pending? b (Plan.stemReads rest s) := by
    intro s
    rw [h.stem s, Plan.stemReads_cons, hq]
    rfl
  have hother : ∀ i, i ≠ j → store.sinks.lookup i =
      kept[i]?.bind fun d => d.slot? (Plan.sinkReaders rest i) := by
    intro i hi
    rw [h.sink i, Plan.sinkReaders_cons, hq]
    simp [Origin.readsSink, hi]
  rw [hq, read, readSink, hslot, Option.map_some]
  refine ⟨_, rfl, ?_⟩
  cases hn : Plan.sinkReaders rest j with
  | zero =>
    have hsinks : ∀ i, (withoutSink store.sinks j).lookup i =
        kept[i]?.bind fun d => d.slot? (Plan.sinkReaders rest i) := by
      intro i
      rw [lookup_withoutSink]
      by_cases hi : i = j
      · rw [if_pos hi, hi, hd, Option.bind_some, hn, Deposit.slot?_zero]
      · rw [if_neg hi, hother i hi]
    cases d.sink.saved with
    | true => exact ⟨rfl, ⟨hstems, hsinks⟩, rfl⟩
    | false => exact ⟨rfl, ⟨hstems, hsinks⟩, rfl⟩
  | succ n =>
    refine ⟨rfl, ⟨hstems, fun i => ?_⟩, rfl⟩
    change ((j, _) :: withoutSink store.sinks j).lookup i = _
    rw [lookup_cons_eq_ite, lookup_withoutSink]
    by_cases hi : i = j
    · rw [if_pos hi, hi, hd, Option.bind_some, hn, Deposit.slot?_succ]
      rfl
    · rw [if_neg hi, if_neg hi, hother i hi]

lemma Holds.unread (h : store.Holds stems kept rest) {d : Deposit}
    (hn : Plan.sinkReaders rest kept.length = 0) : store.Holds stems (kept ++ [d]) rest := by
  refine ⟨h.stem, fun i => ?_⟩
  rw [h.sink i, getElem?_concat]
  by_cases hi : i = kept.length
  · rw [if_pos hi, hi, List.getElem?_eq_none (Nat.le_refl _), Option.bind_some, hn,
      Deposit.slot?_zero]
    rfl
  · rw [if_neg hi]

lemma Holds.hold (h : store.Holds stems kept rest) {d : Deposit} {slot : SinkSlot}
    (hslot : d.slot? (Plan.sinkReaders rest kept.length) = some slot) :
    (store.hold kept.length slot).Holds stems (kept ++ [d]) rest := by
  refine ⟨h.stem, fun i => ?_⟩
  change ((kept.length, slot) :: withoutSink store.sinks kept.length).lookup i = _
  rw [lookup_cons_eq_ite, lookup_withoutSink, getElem?_concat]
  by_cases hi : i = kept.length
  · rw [if_pos hi, if_pos hi, hi, Option.bind_some, hslot]
  · rw [if_neg hi, if_neg hi, if_neg hi, h.sink i]

end Store

namespace Execution

/-- Keeping the result of a statement, whether it is saved or not and read or not. -/
lemma Progress.holds_keep {p : Progress} {stems : StemMap Buffer} {kept : List Deposit}
    {q : PlannedStatement} {rest : List PlannedStatement} (h : p.store.Holds stems kept rest)
    (hi : q.index = kept.length) (hr : q.readers = Plan.sinkReaders rest q.index) (b : Buffer) :
    (p.keep q b).store.Holds stems (kept ++ [⟨q.sink, b⟩]) rest := by
  rw [hi] at hr
  cases hn : Plan.sinkReaders rest kept.length with
  | zero =>
    have hu := h.unread (d := ⟨q.sink, b⟩) hn
    rw [hn] at hr
    cases hs : q.sink.saved with
    | true => simpa [keep, hs, Store.insertSaved, hr] using hu
    | false => simpa [keep, hs, Store.insert, hr] using (⟨hu.stem, hu.sink⟩ :
        (p.store.release q.sink.name).Holds stems (kept ++ [⟨q.sink, b⟩]) rest)
  | succ n =>
    have hslot : (⟨q.sink, b⟩ : Deposit).slot? (Plan.sinkReaders rest kept.length) =
        some ⟨⟨b, n + 1⟩, q.sink.name, q.sink.saved⟩ := by rw [hn]; rfl
    have hh := h.hold hslot
    rw [hn] at hr
    cases hs : q.sink.saved with
    | true => simpa [keep, hs, Store.insertSaved, hr, hi] using hh
    | false => simpa [keep, hs, Store.insert, hr, hi] using hh

end Execution

end Remix
