import Mathlib.Data.Finset.Lattice.Fold
import Mathlib.Order.Lattice.Nat
import Remix.Proofs.Runs

/-!
# The size of the working set

The store counts the buffers that it holds, up when one is put in and down when one is taken out,
and notes the largest count. This file shows that the count is the number of buffers that are wanted
at the time, so that the largest one is the largest working set of the plan.
-/

namespace Remix

namespace Execution

variable {r : Recipe} {plan : Plan} {stems : StemMap Buffer} {transforms : Transforms}
  {before later : List PlannedStatement} {q : PlannedStatement} {p p' : Progress} {out : Output}

/-- The store holds what is wanted after the statements `before`, and its peak is the largest
working set so far. -/
structure HoldsWanted (plan : Plan) (stems : StemMap Buffer) (before : List PlannedStatement)
    (p : Progress) : Prop where
  live : p.store.live = plan.workingSet stems before.length
  peak : p.store.peak = (Finset.range (before.length + 1)).sup (plan.workingSet stems)

lemma holdsWanted_start (h : Plan.ofRecipe r = .ok plan) (stems : StemMap Buffer) :
    HoldsWanted plan stems [] (.start stems plan.stemReaders plan.statements.length) := by
  have hheld : (Progress.start stems plan.stemReaders plan.statements.length).store.live =
      (Plan.wantedStems stems plan.statements).length := by
    simp only [Progress.start, Store.seed, StemMap.size, StemMap.stems, Plan.wantedStems,
      List.filter_filter]
    congr 1
    apply List.filter_congr
    intro s _
    rw [StemMap.contains, StemMap.get?_ofFn, Plan.any_stem, Plan.stemReaders_eq h,
      StemMap.get?_ofFn, Plan.stemReaders?_eq, StemMap.contains]
    cases stems.get? s with
    | none => simp
    | some b => cases Plan.stemReads plan.statements s <;> simp
  have hset : plan.workingSet stems 0 = (Plan.wantedStems stems plan.statements).length := by
    rw [← List.length_nil (α := PlannedStatement),
      Plan.workingSet_eq stems (List.nil_append _).symm, Plan.wantedSinks_nil_left,
      List.length_nil, Nat.add_zero]
  refine ⟨hheld.trans hset.symm, ?_⟩
  have hpeak : (Progress.start stems plan.stemReaders plan.statements.length).store.peak =
      (Progress.start stems plan.stemReaders plan.statements.length).store.live := rfl
  rw [hpeak, hheld, ← hset]
  simp

lemma HoldsWanted.advance (h : Plan.ofRecipe r = .ok plan)
    (hsplit : plan.statements = before ++ q :: later) (hp : HoldsWanted plan stems before p)
    (hadvances : Advances plan stems q later p p') : HoldsWanted plan stems (before ++ [q]) p' := by
  obtain ⟨staying, hbefore, hafter⟩ := Plan.workingSet_succ h hadvances.stem hsplit
  have hlive : p'.store.live = plan.workingSet stems (before ++ [q]).length := by
    rw [hadvances.live, hp.live, hbefore, hafter]
    omega
  refine ⟨hlive, ?_⟩
  rw [hadvances.peak, hlive, hp.peak, List.length_append, List.length_singleton,
    Finset.range_add_one (n := before.length + 1), Finset.sup_insert]
  rw [List.length_append, List.length_singleton] at hafter
  -- A new maximum is reached only where a sink is put in.
  split
  · exact max_comm _ _
  · rename_i hunread
    have hle : plan.workingSet stems (before.length + 1) ≤ plan.workingSet stems before.length := by
      rw [hafter, hbefore, if_neg hunread]
      omega
    have hsup : plan.workingSet stems before.length ≤
        (Finset.range (before.length + 1)).sup (plan.workingSet stems) :=
      Finset.le_sup (Finset.self_mem_range_succ _)
    exact (sup_eq_right.mpr (hle.trans hsup)).symm

lemma holdsWanted_before (h : Plan.ofRecipe r = .ok plan) {rest : List PlannedStatement}
    (hsplit : plan.statements = before ++ rest)
    (hrun : (runFrom transforms (.start stems plan.stemReaders plan.statements.length)
      before).result = .ok p) :
    Stands plan stems before rest p ∧ HoldsWanted plan stems before p := by
  have hstart : Stands plan stems [] (before ++ rest)
      (.start stems plan.stemReaders plan.statements.length) := by
    rw [← hsplit]
    exact stands_start h stems
  exact runFrom_prefix_induction (I := fun before _ p => HoldsWanted plan stems before p) h
    (fun _ _ _ _ _ hsplit hadvances hp => hp.advance h hsplit hadvances)
    hstart (holdsWanted_start h stems) hrun

lemma holdsWanted_runFrom (h : Plan.ofRecipe r = .ok plan)
    (hrun : (runFrom transforms (.start stems plan.stemReaders plan.statements.length)
      plan.statements).result = .ok p) : HoldsWanted plan stems plan.statements p :=
  (holdsWanted_before h (List.append_nil _).symm hrun).2

/-- Whenever a statement finds its track, the count is not 0, so that it can go down. -/
lemma live_pos_of_read (h : Plan.ofRecipe r = .ok plan) {reading : Reading}
    (hsplit : plan.statements = before ++ q :: later)
    (hrun : (runFrom transforms (.start stems plan.stemReaders plan.statements.length)
      before).result = .ok p)
    (hread : p.store.read q.origin = some reading) : 0 < p.store.live := by
  obtain ⟨hstands, hwanted⟩ := holdsWanted_before h hsplit hrun
  obtain ⟨kept, -, hholds⟩ := hstands.holds
  rw [hwanted.live]
  refine Plan.workingSet_pos h (fun s ho => ?_) hsplit
  exact StemMap.mem_stems.mpr (hholds.mem_stems hread s ho)

end Execution

/-- The peak that an execution reports is the largest number of buffers that are wanted between two
statements: stems at hand, and sinks of earlier statements, that a later statement reads. -/
theorem peakLive_eq_sup_workingSet (r : Recipe) (plan : Plan) (h : Plan.ofRecipe r = .ok plan)
    (stems : StemMap Buffer) (transforms : Transforms) (out : Output)
    (hout : (execute plan stems transforms).result = .ok out) :
    out.stats.peakLive =
      (Finset.range (plan.statements.length + 1)).sup (plan.workingSet stems) := by
  obtain ⟨p, hrun, rfl⟩ := Execution.execute_eq_ok hout
  exact (Execution.holdsWanted_runFrom h hrun).peak

/-- A stem that nobody reads is at hand as well. -/
def relayStems : StemMap Buffer :=
  { bass := some ⟨[[⟨5⟩]], 8000⟩, drums := some ⟨[[⟨1⟩], [⟨2⟩]], 8000⟩,
    piano := some ⟨[[⟨7⟩]], 8000⟩ }

def relayOutput : Output :=
  ⟨[⟨"drums", ⟨[[⟨1⟩], [⟨2⟩]], 8000⟩⟩, ⟨"low", ⟨[[⟨1⟩], [⟨2⟩]], 8000⟩⟩,
    ⟨"high", ⟨[[⟨1⟩], [⟨2⟩]], 8000⟩⟩, ⟨"end", ⟨[[⟨1⟩], [⟨2⟩]], 8000⟩⟩],
    ⟨7, 3, 3, ["scratch", "dry", "tail"]⟩⟩

theorem peakLive_eq_sup_workingSet_relay :
    Plan.ofRecipe Plan.relay = .ok Plan.relayPlan ∧
    (execute Plan.relayPlan relayStems fun _ b => .ok b).result = .ok relayOutput ∧
    relayOutput.stats.peakLive = (Finset.range 8).sup (Plan.relayPlan.workingSet relayStems) :=
  ⟨by decide, by decide, peakLive_eq_sup_workingSet Plan.relay Plan.relayPlan (by decide)
    relayStems (fun _ b => .ok b) relayOutput (by decide)⟩

end Remix
