import Mathlib.Algebra.BigOperators.Group.List.Basic
import Mathlib.Algebra.GroupWithZero.Nat
import Mathlib.Data.List.Nodup
import Remix.Proofs.Lifetime

/-!
# What the counts of a plan say

The readers that a plan counts are those that it has: for each sink the statements that read it,
all of them later ones, and for each stem the statements that start from it. As every statement
reads one track, the counts add up to the number of statements. A sink that carries the name of a
stem is never read, since that name means the stem.
-/

namespace Remix

namespace StemMap

lemma mem_stems {α : Type} {m : StemMap α} {s : Stem} : s ∈ m.stems ↔ ∃ v, m.get? s = some v := by
  rw [stems, List.mem_filter, contains, Option.isSome_iff_exists]
  exact and_iff_right (Stem.mem_all s)

lemma nodup_stems {α : Type} (m : StemMap α) : m.stems.Nodup := by
  have hall : Stem.all.Nodup := by decide
  exact hall.filter _

lemma sum_toList (m : StemMap Nat) :
    (m.toList.map (·.2)).sum = (Stem.all.map fun s => (m.get? s).getD 0).sum := by
  unfold toList
  induction Stem.all with
  | nil => rfl
  | cons s rest ih => cases hs : m.get? s <;> simp [hs, ih]

end StemMap

namespace Resolves

variable {earlier rest : List Statement} {planned : List PlannedStatement}

lemma nodup_sinkNames (h : Resolves earlier rest planned) (he : (sinkNames earlier).Nodup) :
    (sinkNames (earlier ++ rest)).Nodup := by
  induction h with
  | nil => rwa [List.append_nil]
  | @cons earlier s rest q planned _ hs _ ih =>
    have hname : s.sink.name ∉ sinkNames earlier := fun hm => hs (.inr hm)
    have hnext : (sinkNames (earlier ++ [s])).Nodup := by
      rw [sinkNames_append, sinkNames_singleton, List.nodup_append]
      refine ⟨he, List.nodup_singleton _, ?_⟩
      rintro n hn m hm rfl
      exact hname (by rwa [List.mem_singleton.mp hm] at hn)
    have hrest := ih hnext
    rwa [List.append_assoc] at hrest

end Resolves

namespace Plan

variable {r : Recipe} {plan : Plan}

lemma index_eq (h : ofRecipe r = .ok plan) {i : Nat} {q : PlannedStatement}
    (hq : plan.statements[i]? = some q) : q.index = i := by
  rw [(resolves_statements h).index_eq hq, List.length_nil, Nat.zero_add]

lemma map_sinkName (h : ofRecipe r = .ok plan) :
    plan.statements.map (·.sink.name) = sinkNames r.statements := by
  have hsinks := congrArg (List.map Sink.name) (resolves_statements h).map_sink
  rwa [List.map_map, List.map_map] at hsinks

lemma nodup_sinks (h : ofRecipe r = .ok plan) : (plan.statements.map (·.sink.name)).Nodup := by
  rw [map_sinkName h]
  exact (resolves_statements h).nodup_sinkNames List.nodup_nil

/-- The origin of a statement: an earlier sink, which carries the name and is not named like a
stem. -/
lemma origin_sink (h : ofRecipe r = .ok plan) {i : Nat} {q : PlannedStatement} {name : String}
    {j : Nat} (hq : plan.statements[i]? = some q) (ho : q.origin = .sink name j) :
    j < i ∧ (∀ t : Stem, name ≠ t.name) ∧
      ∃ d, plan.statements[j]? = some d ∧ d.sink.name = name := by
  have hlength := (resolves_statements h).length_eq
  obtain ⟨hi, -⟩ := List.getElem?_eq_some_iff.mp hq
  have hs : r.statements[i]? = some r.statements[i] := List.getElem?_eq_getElem (by omega)
  obtain ⟨p, hp, -, hrecords⟩ := ofRecipe_records h hs
  rw [hq] at hp
  cases hp
  have horigin := hrecords.origin
  rw [ho] at horigin
  generalize r.statements[i].source = source at horigin
  cases horigin with
  | sink hstem hj =>
    have hname := (hj j).mpr rfl
    obtain ⟨hlt, -⟩ := List.getElem?_eq_some_iff.mp hname
    rw [length_sinkNames, List.length_take] at hlt
    have hji : j < i := by omega
    rw [sinkNames, List.getElem?_map, List.getElem?_take_of_lt hji] at hname
    obtain ⟨s, hsj, hsname⟩ := Option.map_eq_some_iff.mp hname
    obtain ⟨d, hd, -, hdrecords⟩ := ofRecipe_records h hsj
    exact ⟨hji, hstem, d, hd, by rw [hdrecords.sink, hsname]⟩

lemma sinkReaders_eq_zero_iff {statements : List PlannedStatement} {i : Nat} :
    sinkReaders statements i = 0 ↔ ∀ q ∈ statements, q.origin.readsSink i = false := by
  simp [sinkReaders, List.countP_eq_zero]

lemma exists_of_readsSink {origin : Origin} {i : Nat} (h : origin.readsSink i) :
    ∃ name, origin = .sink name i := by
  cases origin with
  | stem s => simp at h
  | sink name j =>
    rw [Origin.readsSink_sink, decide_eq_true_eq] at h
    exact ⟨name, by rw [h]⟩

lemma readers_of_stemName (h : ofRecipe r = .ok plan) {i : Nat} {q : PlannedStatement} {s : Stem}
    (hq : plan.statements[i]? = some q) (hs : q.sink.name = s.name) : q.readers = 0 := by
  rw [readers_eq h (List.mem_of_getElem? hq), index_eq h hq, sinkReaders_eq_zero_iff]
  intro p hp
  by_contra hreads
  obtain ⟨j, hj⟩ := List.mem_iff_getElem?.mp hp
  obtain ⟨name, ho⟩ := exists_of_readsSink (Bool.eq_true_of_not_eq_false hreads)
  obtain ⟨-, hstem, d, hd, hname⟩ := origin_sink h hj ho
  rw [hq] at hd
  cases hd
  exact hstem s (by rw [← hname, hs])

lemma stemReaders?_eq (statements : List PlannedStatement) (s : Stem) :
    stemReaders? statements s =
      if stemReads statements s = 0 then none else some (stemReads statements s) := rfl

lemma sum_indicator {α : Type} [DecidableEq α] {keys : List α} (hkeys : keys.Nodup) {key : α}
    (hkey : key ∈ keys) : (keys.map fun k => if key = k then 1 else 0).sum = 1 := by
  rw [List.sum_map_eq_nsmul_single key _ (fun k hk _ => if_neg (Ne.symm hk)),
    List.count_eq_one_of_mem hkeys hkey, if_pos rfl, one_nsmul]

/-- Every statement reads one sink or one stem. -/
lemma sum_readers {statements : List PlannedStatement} {n : Nat}
    (h : ∀ q ∈ statements, ∀ name j, q.origin = .sink name j → j < n) :
    ((List.range n).map (sinkReaders statements)).sum + (Stem.all.map (stemReads statements)).sum =
      statements.length := by
  induction statements with
  | nil =>
    have hsinks : sinkReaders [] = fun _ => 0 := rfl
    have hstems : stemReads [] = fun _ => 0 := rfl
    simp [hsinks, hstems]
  | cons q rest ih =>
    have hrest := ih fun p hp => h p (List.mem_cons_of_mem q hp)
    have hone : ((List.range n).map fun i => if q.origin.readsSink i then 1 else 0).sum +
        (Stem.all.map fun s => if q.origin = .stem s then 1 else 0).sum = 1 := by
      cases ho : q.origin with
      | stem s =>
        have hs := sum_indicator (by decide : Stem.all.Nodup) (Stem.mem_all s)
        simpa using hs
      | sink name j =>
        have hj : j ∈ List.range n := List.mem_range.mpr (h q List.mem_cons_self name j ho)
        have hi := sum_indicator List.nodup_range hj
        simpa [eq_comm] using hi
    rw [funext (sinkReaders_cons q rest), funext (stemReads_cons q rest), List.sum_map_add,
      List.sum_map_add, List.length_cons]
    omega

lemma sum_counts (h : ofRecipe r = .ok plan) :
    (plan.statements.map (·.readers)).sum + (plan.stemReaders.toList.map (·.2)).sum =
      plan.statements.length := by
  have hsinks : plan.statements.map (·.readers) =
      (List.range plan.statements.length).map (sinkReaders plan.statements) := by
    apply List.ext_getElem?
    intro i
    rw [List.getElem?_map, List.getElem?_map]
    cases hq : plan.statements[i]? with
    | none =>
      have hi : plan.statements.length ≤ i := List.getElem?_eq_none_iff.mp hq
      rw [List.getElem?_eq_none (by simpa using hi)]
      rfl
    | some q =>
      obtain ⟨hi, -⟩ := List.getElem?_eq_some_iff.mp hq
      rw [List.getElem?_range hi, Option.map_some, Option.map_some,
        readers_eq h (List.mem_of_getElem? hq), index_eq h hq]
  have hstems : (plan.stemReaders.toList.map (·.2)).sum =
      (Stem.all.map (stemReads plan.statements)).sum := by
    rw [StemMap.sum_toList, stemReaders_eq h]
    congr 2
    funext s
    rw [StemMap.get?_ofFn, stemReaders?_eq]
    split
    · rename_i hzero
      rw [hzero]
      rfl
    · rfl
  rw [hsinks, hstems]
  apply sum_readers
  intro q hq name j ho
  obtain ⟨i, hi⟩ := List.mem_iff_getElem?.mp hq
  obtain ⟨hlt, -⟩ := List.getElem?_eq_some_iff.mp hi
  obtain ⟨hji, -⟩ := origin_sink h hi ho
  omega

lemma get?_stemReaders (h : ofRecipe r = .ok plan) {s : Stem} {n : Nat} :
    plan.stemReaders.get? s = some n ↔ n = stemReads plan.statements s ∧ 0 < n := by
  rw [stemReaders_eq h, StemMap.get?_ofFn, stemReaders?_eq]
  split
  · rename_i hzero
    simp only [reduceCtorEq, false_iff, not_and]
    omega
  · rename_i hpos
    rw [Option.some.injEq]
    omega

lemma mem_requiredStems (h : ofRecipe r = .ok plan) {s : Stem} :
    s ∈ plan.requiredStems ↔ ∃ q ∈ plan.statements, q.origin = .stem s := by
  have hreads : (∃ q ∈ plan.statements, q.origin = .stem s) ↔ 0 < stemReads plan.statements s := by
    simp [stemReads, List.countP_pos_iff]
  rw [requiredStems, StemMap.mem_stems, hreads]
  constructor
  · rintro ⟨n, hn⟩
    obtain ⟨rfl, hpos⟩ := (get?_stemReaders h).mp hn
    exact hpos
  · exact fun hpos => ⟨_, (get?_stemReaders h).mpr ⟨rfl, hpos⟩⟩

lemma deadSinks_eq (h : ofRecipe r = .ok plan) :
    plan.deadSinks = (plan.statements.filter fun q =>
      !q.sink.saved && plan.statements.all (!·.origin.readsSink q.index)).map (·.sink.name) := by
  unfold deadSinks
  congr 1
  apply List.filter_congr
  intro q hq
  have hzero : sinkReaders plan.statements q.index = 0 ↔ _ := sinkReaders_eq_zero_iff
  rw [PlannedStatement.isDead, readers_eq h hq]
  cases q.sink.saved with
  | true => rfl
  | false =>
    rw [Bool.eq_iff_iff]
    simpa using hzero

/-- The counts of a plan are those of its readers. Sinks are read by later statements only, a stem
has an entry if it is read at all, and the dead sinks are those that are neither saved nor read. -/
structure CountsReaders (plan : Plan) : Prop where
  index : ∀ (i : Nat) (q : PlannedStatement), plan.statements[i]? = some q → q.index = i
  readers : ∀ (i : Nat) (q : PlannedStatement), plan.statements[i]? = some q →
    q.readers = plan.statements.countP (·.origin.readsSink i)
  later : ∀ (i j : Nat) (q : PlannedStatement), plan.statements[j]? = some q →
    q.origin.readsSink i → i < j
  stemName : ∀ (i : Nat) (q : PlannedStatement), plan.statements[i]? = some q →
    (∃ s : Stem, q.sink.name = s.name) → q.readers = 0
  stemReaders : ∀ s n, plan.stemReaders.get? s = some n ↔
    n = plan.statements.countP (·.origin = .stem s) ∧ 0 < n
  total : (plan.statements.map (·.readers)).sum + (plan.stemReaders.toList.map (·.2)).sum =
    plan.statements.length
  requiredStems : ∀ s, s ∈ plan.requiredStems ↔ ∃ q ∈ plan.statements, q.origin = .stem s
  nodup_requiredStems : plan.requiredStems.Nodup
  deadSinks : plan.deadSinks = (plan.statements.filter fun q =>
    !q.sink.saved && plan.statements.all (!·.origin.readsSink q.index)).map (·.sink.name)
  nodup_deadSinks : plan.deadSinks.Nodup

theorem countsReaders_of_ofRecipe (r : Recipe) (plan : Plan) (h : ofRecipe r = .ok plan) :
    plan.CountsReaders where
  index _ _ hq := index_eq h hq
  readers i q hq := by rw [readers_eq h (List.mem_of_getElem? hq), index_eq h hq, sinkReaders]
  later i j q hq hreads := by
    obtain ⟨name, ho⟩ := exists_of_readsSink hreads
    exact (origin_sink h hq ho).1
  stemName i q hq hs := by
    obtain ⟨s, hs⟩ := hs
    exact readers_of_stemName h hq hs
  stemReaders _ _ := get?_stemReaders h
  total := sum_counts h
  requiredStems _ := mem_requiredStems h
  nodup_requiredStems := plan.stemReaders.nodup_stems
  deadSinks := deadSinks_eq h
  nodup_deadSinks := (nodup_sinks h).sublist (List.filter_sublist.map _)

/-- A stem saved under its own name and read again, a sink read twice, one that nobody wants, and a
saved one that is read. -/
def relay : Recipe :=
  ⟨[⟨.stem .drums, [.late], ⟨"drums", true⟩⟩, ⟨.stem .drums, [], ⟨"dry", false⟩⟩,
    ⟨.sink "dry", [.flat], ⟨"low", true⟩⟩, ⟨.stem .bass, [], ⟨"scratch", false⟩⟩,
    ⟨.sink "low", [], ⟨"tail", false⟩⟩, ⟨.sink "dry", [.sharp], ⟨"high", true⟩⟩,
    ⟨.sink "tail", [], ⟨"end", true⟩⟩]⟩

def relayPlan : Plan :=
  ⟨[⟨0, .stem .drums, [.late], ⟨"drums", true⟩, 0⟩, ⟨1, .stem .drums, [], ⟨"dry", false⟩, 2⟩,
    ⟨2, .sink "dry" 1, [.flat], ⟨"low", true⟩, 1⟩, ⟨3, .stem .bass, [], ⟨"scratch", false⟩, 0⟩,
    ⟨4, .sink "low" 2, [], ⟨"tail", false⟩, 1⟩, ⟨5, .sink "dry" 1, [.sharp], ⟨"high", true⟩, 0⟩,
    ⟨6, .sink "tail" 4, [], ⟨"end", true⟩, 0⟩], { bass := some 1, drums := some 2 }⟩

theorem countsReaders_relayPlan :
    ofRecipe relay = .ok relayPlan ∧ relayPlan.deadSinks = ["scratch"] ∧
      relayPlan.CountsReaders :=
  ⟨by decide, by decide, countsReaders_of_ofRecipe relay relayPlan (by decide)⟩

end Plan

end Remix
