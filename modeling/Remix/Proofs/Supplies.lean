import Mathlib.Data.List.Induction
import Mathlib.Tactic.Common
import Remix.Proofs.PendingReads

/-!
# What a store answers

A store is read and filled in any order, by any keys. What it answers can be told from the history
of these accesses alone: a key holds what was put there last, for as many reads as it was put in
for. `Store.supply?` is a store seen as a partial map from keys, and `Effect` is all that an access
can do to it, so that a history is followed at each key by itself.
-/

namespace Remix

/-- What a buffer in store is found by: its stem, or the statement that made it. -/
inductive Store.Key where
  | stem (s : Stem)
  | sink (statement : Nat)
  deriving DecidableEq, Repr

/-- The name of a sink is not part of its key. -/
def Origin.key : Origin → Store.Key
  | .stem s => .stem s
  | .sink _ i => .sink i

namespace Store

/-- A buffer with the number of reads it is there for, and the name that the last of them releases,
if any. -/
structure Supply where
  buffer : Buffer
  reads : Nat
  name : Option String
  deriving DecidableEq

/-- What is left of a supply after `n` reads. -/
def Supply.less (p : Supply) (n : Nat) : Option Supply :=
  if n < p.reads then some { p with reads := p.reads - n } else none

/-- A use of a store. -/
inductive Access where
  | read (origin : Origin)
  | insert (i : Nat) (name : String) (b : Buffer) (readers : Nat)
  | insertSaved (i : Nat) (name : String) (b : Buffer) (readers : Nat)
  deriving DecidableEq

/-- The store after an access. A read of what is not in store leaves it as it is. -/
def access (store : Store) : Access → Store
  | .read origin => ((store.read origin).map (·.store)).getD store
  | .insert i name b readers => store.insert i name b readers
  | .insertSaved i name b readers => store.insertSaved i name b readers

/-- The store after a history, in which the oldest access comes first. -/
def after (store : Store) (history : List Access) : Store := history.foldl access store

@[simp] lemma after_nil (store : Store) : store.after [] = store := rfl

lemma after_cons (store : Store) (a : Access) (history : List Access) :
    store.after (a :: history) = (store.access a).after history := rfl

lemma after_append (store : Store) (history later : List Access) :
    store.after (history ++ later) = (store.after history).after later := List.foldl_append

lemma after_concat (store : Store) (history : List Access) (a : Access) :
    store.after (history ++ [a]) = (store.after history).access a := after_append store history [a]

namespace Access

/-- What an access puts, and where. A sink without readers is put nowhere. -/
def put? : Access → Option (Key × Supply)
  | .read _ => none
  | .insert i name b readers =>
    if readers = 0 then none else some (.sink i, ⟨b, readers, some name⟩)
  | .insertSaved i _ b readers =>
    if readers = 0 then none else some (.sink i, ⟨b, readers, none⟩)

def reads (key : Key) : Access → Bool
  | .read origin => origin.key = key
  | _ => false

/-- Whether an access leaves what is put at a key where it is. -/
def Spares (key : Key) (a : Access) : Prop := ∀ p, a.put? ≠ some (key, p)

end Access

/-- What a key holds. -/
def supply? (store : Store) : Key → Option Supply
  | .stem s => (store.stems.get? s).map fun slot => ⟨slot.buffer, slot.readers, none⟩
  | .sink i => (store.sinks.lookup i).map fun slot =>
      ⟨slot.buffer, slot.readers, if slot.saved then none else some slot.name⟩

/-- What the keys of a store hold at first: a stem is there for its readers, if it has any. -/
def seeded? (stems : StemMap Buffer) (readers : StemMap Nat) : Key → Option Supply
  | .stem s => (stems.get? s).bind fun b => (readers.get? s).bind fun n =>
      if n = 0 then none else some ⟨b, n, none⟩
  | .sink _ => none

/-- A store that is new, and what its keys hold. -/
inductive Begins : Store → (Key → Option Supply) → Prop where
  | empty : Begins .empty fun _ => none
  | seed (stems : StemMap Buffer) (readers : StemMap Nat) (statements : Nat) :
      Begins (seed stems readers statements) (seeded? stems readers)

/-- After a history, `p` is what has been put at a key last, and `n` reads of the key have
followed. -/
inductive LastPut (first : Key → Option Supply) (key : Key) :
    List Access → Supply → Nat → Prop where
  | first {since : List Access} {p : Supply} (hp : first key = some p)
      (hsince : ∀ a ∈ since, a.Spares key) :
      LastPut first key since p (since.countP (·.reads key))
  | put {earlier since : List Access} {a : Access} {p : Supply} (hp : a.put? = some (key, p))
      (hsince : ∀ a ∈ since, a.Spares key) :
      LastPut first key (earlier ++ a :: since) p (since.countP (·.reads key))

/-- The name that an access releases after a history: that of a sink without readers, or that under
which a buffer was put in, at its last read. -/
inductive Releases (first : Key → Option Supply) (history : List Access) :
    Access → String → Prop where
  | unread (i : Nat) (name : String) (b : Buffer) : Releases first history (.insert i name b 0) name
  | lastRead {origin : Origin} {p : Supply} {n : Nat} {name : String}
      (hp : LastPut first origin.key history p n) (hlast : n + 1 = p.reads)
      (hname : p.name = some name) : Releases first history (.read origin) name

variable {store start : Store} {first : Key → Option Supply} {key : Key} {origin : Origin}
  {a : Access} {history since : List Access} {p : Supply} {n : Nat}

lemma Supply.less_less (p : Supply) (m n : Nat) :
    ((p.less m).bind fun q => q.less n) = p.less (m + n) := by
  unfold less
  by_cases hm : m < p.reads
  · rw [if_pos hm, Option.bind_some]
    by_cases hn : n < p.reads - m
    · rw [if_pos hn, if_pos (by omega), Nat.sub_sub]
    · rw [if_neg hn, if_neg (by omega)]
  · rw [if_neg hm, if_neg (by omega), Option.bind_none]

/-- A read looks at nothing but what its key holds. -/
lemma buffer_read (store : Store) (origin : Origin) :
    (store.read origin).map (·.buffer) = (store.supply? origin.key).map (·.buffer) := by
  cases origin with
  | stem s =>
    simp only [read, readStem, supply?, Origin.key, Option.map_map]
    congr 1
    funext slot
    simp only [Function.comp_apply]
    split <;> rfl
  | sink name i =>
    simp only [read, readSink, supply?, Origin.key, Option.map_map]
    congr 1
    funext slot
    simp only [Function.comp_apply]
    split
    · split <;> rfl
    · rfl

/-- What a read does to a store whose key holds `p`. -/
structure Answers (origin : Origin) (p : Supply) (store store' : Store) : Prop where
  supply : ∀ key, store'.supply? key =
    if origin.key = key then p.less 1 else store.supply? key
  live : store'.live = store.live - if p.reads ≤ 1 then 1 else 0
  peak : store'.peak = store.peak
  released : store'.released = store.released ++ if p.reads ≤ 1 then p.name.toList else []

lemma access_readStem {s : Stem} {slot : Slot} (hslot : store.stems.get? s = some slot) :
    store.access (.read (.stem s)) =
      { store with
        stems := store.stems.set s
          (if slot.readers ≤ 1 then none else some { slot with readers := slot.readers - 1 })
        live := store.live - if slot.readers ≤ 1 then 1 else 0 } := by
  unfold access read readStem
  simp only [hslot, Option.map_some, Option.getD_some, Nat.sub_eq_zero_iff_le]
  split <;> rfl

lemma access_readSink {i : Nat} {slot : SinkSlot} (hslot : store.sinks.lookup i = some slot)
    (name : String) :
    store.access (.read (.sink name i)) =
      { store with
        sinks := (if slot.readers ≤ 1 then [] else
          [(i, { slot with readers := slot.readers - 1 })]) ++ withoutSink store.sinks i
        live := store.live - if slot.readers ≤ 1 then 1 else 0
        released := store.released ++
          if slot.readers ≤ 1 then (if slot.saved then [] else [slot.name]) else [] } := by
  unfold access read readSink
  simp only [hslot, Option.map_some, Option.getD_some, Nat.sub_eq_zero_iff_le]
  by_cases hlast : slot.readers ≤ 1
  · cases hsaved : slot.saved <;> simp [hlast, release]
  · simp [hlast]

lemma answers_readStem {s : Stem} {slot : Slot} (hslot : store.stems.get? s = some slot) :
    Answers (.stem s) ⟨slot.buffer, slot.readers, none⟩ store (store.access (.read (.stem s))) := by
  rw [access_readStem hslot]
  refine ⟨?_, rfl, rfl, ?_⟩
  · intro key
    cases key with
    | sink i => rfl
    | stem t =>
      simp only [supply?, StemMap.get?_set, Origin.key, Key.stem.injEq]
      by_cases ht : s = t
      · simp only [if_pos ht, Supply.less, ← Nat.not_le, ite_not]
        split <;> rfl
      · simp only [if_neg ht]
  · simp

lemma answers_readSink {i : Nat} {slot : SinkSlot} (hslot : store.sinks.lookup i = some slot)
    (name : String) :
    Answers (.sink name i) ⟨slot.buffer, slot.readers, if slot.saved then none else some slot.name⟩
      store (store.access (.read (.sink name i))) := by
  rw [access_readSink hslot]
  refine ⟨?_, rfl, rfl, ?_⟩
  · intro key
    cases key with
    | stem t => rfl
    | sink j =>
      by_cases hj : j = i
      · subst hj
        by_cases hlast : slot.readers ≤ 1
        · simp [supply?, Origin.key, Supply.less, hlast, lookup_withoutSink]
        · simp [supply?, Origin.key, Supply.less, hlast]
      · have hkey : ¬Origin.key (.sink name i) = Key.sink j := by
          intro h
          exact hj (Key.sink.inj h).symm
        rw [if_neg hkey]
        by_cases hlast : slot.readers ≤ 1
        · simp [supply?, hlast, lookup_withoutSink, hj]
        · simp [supply?, hlast, lookup_cons_eq_ite, lookup_withoutSink, hj]
  · cases slot.saved <;> rfl

/-- A read finds what its key holds, and otherwise leaves the store as it is. -/
lemma access_read (store : Store) (origin : Origin) :
    (store.supply? origin.key = none ∧ store.access (.read origin) = store) ∨
      ∃ p, store.supply? origin.key = some p ∧
        Answers origin p store (store.access (.read origin)) := by
  cases origin with
  | stem s =>
    cases hslot : store.stems.get? s with
    | none => exact .inl (by simp [supply?, Origin.key, access, read, readStem, hslot])
    | some slot =>
      right
      refine ⟨_, ?_, answers_readStem hslot⟩
      simp [supply?, Origin.key, hslot]
  | sink name i =>
    cases hslot : store.sinks.lookup i with
    | none => exact .inl (by simp [supply?, Origin.key, access, read, readSink, hslot])
    | some slot =>
      right
      refine ⟨_, ?_, answers_readSink hslot name⟩
      simp [supply?, Origin.key, hslot]

/-- What an access does that puts `p` at a key. -/
structure Fills (key : Key) (p : Supply) (store store' : Store) : Prop where
  supply : ∀ k, store'.supply? k = if key = k then some p else store.supply? k
  live : store'.live = store.live + 1
  peak : store'.peak = max store.peak (store.live + 1)
  released : store'.released = store.released

lemma fills_hold (store : Store) (i : Nat) (slot : SinkSlot) :
    Fills (.sink i) ⟨slot.buffer, slot.readers, if slot.saved then none else some slot.name⟩ store
      (store.hold i slot) := by
  refine ⟨?_, rfl, rfl, rfl⟩
  intro key
  cases key with
  | stem s => rfl
  | sink j =>
    change (((i, slot) :: withoutSink store.sinks i).lookup j).map _ = _
    rw [lookup_cons_eq_ite, lookup_withoutSink]
    by_cases hj : j = i
    · subst hj
      rw [if_pos rfl, if_pos rfl]
      rfl
    · have hkey : ¬Key.sink i = Key.sink j := by
        intro h
        exact hj (Key.sink.inj h).symm
      rw [if_neg hj, if_neg hj, if_neg hkey]
      rfl

lemma fills_of_put (h : a.put? = some (key, p)) : Fills key p store (store.access a) := by
  cases a with
  | read origin => cases h
  | insert i name b readers =>
    simp only [Access.put?] at h
    split_ifs at h with hreaders
    cases h
    rw [access, insert, if_neg hreaders]
    exact fills_hold store i ⟨⟨b, readers⟩, name, false⟩
  | insertSaved i name b readers =>
    simp only [Access.put?] at h
    split_ifs at h with hreaders
    cases h
    rw [access, insertSaved, if_neg hreaders]
    exact fills_hold store i ⟨⟨b, readers⟩, name, true⟩

/-- Everything that an access can do: it reads in vain, reads what its key holds, fills a key, or is
that of a sink without readers, which is released unless it is saved. -/
inductive Effect (store : Store) : Access → Store → Prop where
  | misses {origin : Origin} (h : store.supply? origin.key = none) :
      Effect store (.read origin) store
  | answers {origin : Origin} {p : Supply} {store' : Store}
      (hp : store.supply? origin.key = some p) (h : Answers origin p store store') :
      Effect store (.read origin) store'
  | fills {a : Access} {key : Key} {p : Supply} {store' : Store} (hp : a.put? = some (key, p))
      (h : Fills key p store store') : Effect store a store'
  | releases (i : Nat) (name : String) (b : Buffer) :
      Effect store (.insert i name b 0) (store.release name)
  | ignores (i : Nat) (name : String) (b : Buffer) : Effect store (.insertSaved i name b 0) store

lemma effect_access (store : Store) (a : Access) : Effect store a (store.access a) := by
  cases hput : a.put? with
  | some put => exact .fills hput (fills_of_put hput)
  | none =>
    cases a with
    | read origin =>
      rcases access_read store origin with ⟨hnone, hsame⟩ | ⟨p, hp, hanswers⟩
      · rw [hsame]
        exact .misses hnone
      · exact .answers hp hanswers
    | insert i name b readers =>
      have hreaders : readers = 0 := by simpa [Access.put?] using hput
      subst hreaders
      exact .releases i name b
    | insertSaved i name b readers =>
      have hreaders : readers = 0 := by simpa [Access.put?] using hput
      subst hreaders
      exact .ignores i name b

lemma supply?_release (store : Store) (name : String) (key : Key) :
    (store.release name).supply? key = store.supply? key := by
  cases key <;> rfl

lemma Access.put?_of_reads (h : a.reads key) : a.put? = none := by
  cases a with
  | read origin => rfl
  | _ => cases h

/-- An access that puts something at a key replaces what it holds. -/
lemma supply?_access_of_put (h : a.put? = some (key, p)) :
    (store.access a).supply? key = some p := by
  rw [(fills_of_put h).supply, if_pos rfl]

/-- Any other access takes one read off a key that it reads, and leaves it alone otherwise. -/
lemma supply?_access_of_spares (h : a.Spares key) :
    (store.access a).supply? key =
      if a.reads key then (store.supply? key).bind fun p => p.less 1 else store.supply? key := by
  have heffect := effect_access store a
  generalize store.access a = store' at heffect ⊢
  cases heffect with
  | @misses origin hnone =>
    by_cases hkey : origin.key = key
    · subst hkey
      simp [Access.reads, hnone]
    · simp [Access.reads, hkey]
  | @answers origin q _ hq hanswers =>
    rw [hanswers.supply]
    by_cases hkey : origin.key = key
    · subst hkey
      simp [Access.reads, hq]
    · simp [Access.reads, hkey]
  | @fills _ k q _ hq hfills =>
    have hkey : k ≠ key := by
      rintro rfl
      exact h q hq
    have hreads : ¬a.reads key := by
      intro hreads
      rw [Access.put?_of_reads hreads] at hq
      cases hq
    rw [hfills.supply, if_neg hkey, if_neg hreads]
  | releases i name b => exact supply?_release store name key
  | ignores i name b => rfl

/-- As long as nothing is put at a key, each of its reads takes one read off. -/
lemma supply?_after_of_spares (hpos : ∀ p ∈ store.supply? key, 0 < p.reads)
    (hsince : ∀ a ∈ since, a.Spares key) :
    (store.after since).supply? key =
      (store.supply? key).bind fun p => p.less (since.countP (·.reads key)) := by
  -- From the end, where the number of reads so far is known.
  induction since using List.reverseRecOn with
  | nil =>
    cases hp : store.supply? key with
    | none => rw [after_nil, hp, Option.bind_none]
    | some p =>
      have hreads := hpos p hp
      simp [hp, Supply.less, hreads]
  | append_singleton since a ih =>
    obtain ⟨hsince, ha⟩ := List.forall_mem_append.mp hsince
    have hspares : a.Spares key := ha a (List.mem_singleton_self a)
    rw [after_concat, supply?_access_of_spares hspares, ih hsince, List.countP_append,
      List.countP_singleton]
    by_cases hreads : a.reads key
    · simp only [if_pos hreads, Option.bind_assoc, Supply.less_less]
    · simp only [if_neg hreads, Nat.add_zero]

lemma Begins.supply? (h : start.Begins first) (key : Key) : start.supply? key = first key := by
  cases h with
  | empty =>
    cases key with
    | sink i => rfl
    | stem s => simp [Store.supply?, Store.empty]
  | seed stems readers statements =>
    cases key with
    | sink i => rfl
    | stem s =>
      simp only [Store.supply?, Store.seed, StemMap.get?_ofFn, seeded?]
      cases stems.get? s with
      | none => rfl
      | some b =>
        cases readers.get? s with
        | none => rfl
        | some n => cases n <;> rfl

lemma Begins.reads_pos (h : start.Begins first) (hp : first key = some p) : 0 < p.reads := by
  cases h with
  | empty => cases hp
  | seed stems readers statements =>
    cases key with
    | sink i => cases hp
    | stem s =>
      obtain ⟨b, -, hp⟩ := Option.bind_eq_some_iff.mp hp
      obtain ⟨n, -, hp⟩ := Option.bind_eq_some_iff.mp hp
      split_ifs at hp with hn
      cases hp
      exact Nat.pos_of_ne_zero hn

lemma Access.reads_pos_of_put (h : a.put? = some (key, p)) : 0 < p.reads := by
  cases a with
  | read origin => cases h
  | insert i name b readers =>
    simp only [put?] at h
    split_ifs at h with hreaders
    cases h
    exact Nat.pos_of_ne_zero hreaders
  | insertSaved i name b readers =>
    simp only [put?] at h
    split_ifs at h with hreaders
    cases h
    exact Nat.pos_of_ne_zero hreaders

/-- What a key holds after a history is what is left of the supply put there last. -/
lemma supply?_after (h : start.Begins first) (hp : LastPut first key history p n) :
    (start.after history).supply? key = p.less n := by
  cases hp with
  | first hp hsince =>
    have hstart : start.supply? key = some p := by rw [h.supply?, hp]
    have hpos : ∀ q ∈ start.supply? key, 0 < q.reads := by
      intro q hq
      exact h.reads_pos ((h.supply? key).symm.trans hq)
    rw [supply?_after_of_spares hpos hsince, hstart, Option.bind_some]
  | @put earlier since a _ hp hsince =>
    have hfilled : ((start.after earlier).access a).supply? key = some p :=
      supply?_access_of_put hp
    have hpos : ∀ q ∈ ((start.after earlier).access a).supply? key, 0 < q.reads := by
      intro q hq
      rw [hfilled] at hq
      cases hq
      exact Access.reads_pos_of_put hp
    rw [after_append, after_cons, supply?_after_of_spares hpos hsince, hfilled, Option.bind_some]

/-- Either something has been put at a key, or it has been left as it was at first. -/
lemma exists_lastPut_or_spares (first : Key → Option Supply) (key : Key) (history : List Access) :
    (∃ p n, LastPut first key history p n) ∨
      (first key = none ∧ ∀ a ∈ history, a.Spares key) := by
  induction history using List.reverseRecOn with
  | nil =>
    cases hp : first key with
    | none => exact .inr ⟨rfl, nofun⟩
    | some p => exact .inl ⟨p, 0, .first hp nofun⟩
  | append_singleton history a ih =>
    by_cases hput : ∃ p, a.put? = some (key, p)
    · obtain ⟨p, hp⟩ := hput
      exact .inl ⟨p, 0, .put hp nofun⟩
    · have ha : ∀ b ∈ [a], b.Spares key := by
        intro b hb p hp
        rw [List.mem_singleton.mp hb] at hp
        exact hput ⟨p, hp⟩
      rcases ih with ⟨p, n, hp⟩ | ⟨hnone, hspares⟩
      · left
        cases hp with
        | first hp hsince => exact ⟨p, _, .first hp (List.forall_mem_append.mpr ⟨hsince, ha⟩)⟩
        | @put earlier since c _ hp hsince =>
          rw [List.append_assoc, List.cons_append]
          exact ⟨p, _, .put hp (List.forall_mem_append.mpr ⟨hsince, ha⟩)⟩
      · exact .inr ⟨hnone, List.forall_mem_append.mpr ⟨hspares, ha⟩⟩

lemma supply?_after_eq_none (h : start.Begins first)
    (hnone : ∀ p n, ¬LastPut first key history p n) :
    (start.after history).supply? key = none := by
  rcases exists_lastPut_or_spares first key history with ⟨p, n, hp⟩ | ⟨hfirst, hspares⟩
  · exact absurd hp (hnone p n)
  · have hstart : start.supply? key = none := by rw [h.supply?, hfirst]
    have hpos : ∀ q ∈ start.supply? key, 0 < q.reads := by
      intro q hq
      rw [hstart] at hq
      cases hq
    rw [supply?_after_of_spares hpos hspares, hstart, Option.bind_none]

lemma buffer_read_after (h : start.Begins first) (hp : LastPut first origin.key history p n) :
    ((start.after history).read origin).map (·.buffer) =
      if n < p.reads then some p.buffer else none := by
  rw [buffer_read, supply?_after h hp, Supply.less]
  split <;> rfl

lemma read_after_eq_none (h : start.Begins first)
    (hnone : ∀ p n, ¬LastPut first origin.key history p n) :
    (start.after history).read origin = none := by
  have hbuffer := buffer_read (start.after history) origin
  rw [supply?_after_eq_none h hnone] at hbuffer
  exact Option.map_eq_none_iff.mp hbuffer

lemma exists_lastPut_of_supply (h : start.Begins first) {q : Supply}
    (hq : (start.after history).supply? key = some q) :
    ∃ p n, LastPut first key history p n ∧ p.less n = some q := by
  by_contra hcontra
  have hnone : ∀ p n, ¬LastPut first key history p n := by
    intro p n hp
    exact hcontra ⟨p, n, hp, (supply?_after h hp).symm.trans hq⟩
  rw [supply?_after_eq_none h hnone] at hq
  cases hq

lemma released_of_releases (h : start.Begins first) {name : String}
    (hname : Releases first history a name) :
    ((start.after history).access a).released = (start.after history).released ++ [name] := by
  cases hname with
  | unread i name b => rfl
  | @lastRead origin p n name hp hlast hname =>
    have hsupply : (start.after history).supply? origin.key =
        some { p with reads := p.reads - n } := by
      rw [supply?_after h hp, Supply.less, if_pos (by omega)]
    rcases access_read (start.after history) origin with ⟨hnone, -⟩ | ⟨q, hq, hanswers⟩
    · rw [hnone] at hsupply
      cases hsupply
    · rw [hsupply] at hq
      cases hq
      rw [hanswers.released, if_pos (by dsimp only; omega), hname]
      rfl

lemma released_of_not_releases (h : start.Begins first)
    (hnone : ∀ name, ¬Releases first history a name) :
    ((start.after history).access a).released = (start.after history).released := by
  have heffect := effect_access (start.after history) a
  generalize (start.after history).access a = store' at heffect ⊢
  cases heffect with
  | misses _ => rfl
  | @answers origin q _ hq hanswers =>
    obtain ⟨p, n, hp, hless⟩ := exists_lastPut_of_supply h hq
    unfold Supply.less at hless
    split_ifs at hless with hn
    cases hless
    have hquiet : (if p.reads - n ≤ 1 then p.name.toList else []) = [] := by
      by_cases hlast : p.reads - n ≤ 1
      · cases hname : p.name with
        | none => simp
        | some name => exact absurd (.lastRead hp (by omega) hname) (hnone name)
      · rw [if_neg hlast]
    rw [hanswers.released, hquiet, List.append_nil]
  | fills _ hfills => exact hfills.released
  | releases i name b => exact absurd (.unread i name b) (hnone name)
  | ignores _ _ _ => rfl

/-- What a store answers after any history. A key holds what was put there last, or had been there
at first, for as many reads as it was put in for, whatever happens at other keys; a further read
finds nothing. A sink without readers leaves all keys as they are. A name is released at the end of
those before, by a sink without readers or by the last read of what was put in under it, and never
else. -/
theorem answers_exact (start : Store) (first : Key → Option Supply) (h : start.Begins first)
    (history : List Access) :
    (∀ origin p n, LastPut first origin.key history p n →
      ((start.after history).read origin).map (·.buffer) =
        if n < p.reads then some p.buffer else none) ∧
    (∀ origin, (∀ p n, ¬LastPut first origin.key history p n) →
      (start.after history).read origin = none) ∧
    (∀ i name b key,
      ((start.after history).insert i name b 0).supply? key = (start.after history).supply? key ∧
      ((start.after history).insertSaved i name b 0).supply? key =
        (start.after history).supply? key) ∧
    (∀ a name, Releases first history a name →
      ((start.after history).access a).released = (start.after history).released ++ [name]) ∧
    ∀ a, (∀ name, ¬Releases first history a name) →
      ((start.after history).access a).released = (start.after history).released := by
  refine ⟨?_, ?_, ?_, ?_, ?_⟩
  · intro origin p n hp
    exact buffer_read_after h hp
  · intro origin hnone
    exact read_after_eq_none h hnone
  · intro i name b key
    exact ⟨supply?_release _ name key, rfl⟩
  · intro a name hname
    exact released_of_releases h hname
  · intro a hnone
    exact released_of_not_releases h hnone

/-- A stem for two readers. -/
def sharedDrums : Store := seed { drums := some ⟨[[⟨1⟩]], 8000⟩ } { drums := some 2 } 2

def sharedDrumsSupply : Key → Option Supply :=
  seeded? { drums := some ⟨[[⟨1⟩]], 8000⟩ } { drums := some 2 }

/-- A sink is put in for two readers and replaced after the first of them. -/
def replacing : List Access :=
  [.insert 0 "dry" ⟨[[⟨2⟩]], 8000⟩ 2, .read (.stem .drums), .read (.sink "dry" 0),
    .insert 0 "wet" ⟨[[⟨3⟩]], 8000⟩ 1, .insert 1 "dead" ⟨[[⟨4⟩]], 8000⟩ 0]

theorem answers_exact_replaced :
    sharedDrums.Begins sharedDrumsSupply ∧
    ((sharedDrums.after replacing).read (.stem .drums)).map (·.buffer) = some ⟨[[⟨1⟩]], 8000⟩ ∧
    ((sharedDrums.after replacing).read (.sink "any" 0)).map (·.buffer) = some ⟨[[⟨3⟩]], 8000⟩ ∧
    ((sharedDrums.after replacing).access (.read (.sink "any" 0))).released = ["dead", "wet"] := by
  have hbegins : sharedDrums.Begins sharedDrumsSupply := .seed _ _ 2
  have hdrums : LastPut sharedDrumsSupply (.stem .drums) replacing ⟨⟨[[⟨1⟩]], 8000⟩, 2, none⟩ 1 :=
    .first rfl (by simp [replacing, Access.Spares, Access.put?])
  have hwet : LastPut sharedDrumsSupply (.sink 0) replacing ⟨⟨[[⟨3⟩]], 8000⟩, 1, some "wet"⟩ 0 :=
    @LastPut.put _ _ (replacing.take 3) (replacing.drop 4) _ _ rfl
      (by simp [replacing, Access.Spares, Access.put?])
  obtain ⟨hreads, -, -, hreleases, -⟩ :=
    answers_exact sharedDrums sharedDrumsSupply hbegins replacing
  exact ⟨hbegins, hreads (.stem .drums) _ _ hdrums, hreads (.sink "any" 0) _ _ hwet,
    hreleases (.read (.sink "any" 0)) _ (.lastRead hwet rfl rfl)⟩

end Store

end Remix
