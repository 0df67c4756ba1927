import Remix.Proofs.WorkingSet

/-!
# Where sinks end

Every sink of a plan ends in one place: a saved one in the output, any other among the released
ones. The last reader of a sink releases it, and a sink that nobody reads is released at once, so
that nothing is left in store after the last statement.
-/

namespace Remix

namespace Plan

variable {r : Recipe} {plan : Plan} {before rest : List PlannedStatement}

/-- What is still to be released are the unsaved sinks that are wanted and those to come. -/
lemma releasesFrom_perm (h : ofRecipe r = .ok plan) (hsplit : plan.statements = before ++ rest) :
    (plan.releasesFrom rest).Perm
      (unsavedNames (wantedSinks before rest) ++ unsavedNames rest) := by
  induction rest generalizing before with
  | nil => simp [releasesFrom, unsavedNames]
  | cons q later ih =>
    have hnext : plan.statements = (before ++ [q]) ++ later := by rw [hsplit, List.append_cons]
    have hwanted := unsavedNames_perm (wantedSinks_cons h hsplit)
    have hown : unsavedNames (q :: later) = unsavedNames [q] ++ unsavedNames later :=
      unsavedNames_append [q] later
    rw [releasesFrom, releasedBy, any_readsSink_eq_later h hsplit, hown]
    refine List.Perm.trans ((ih hnext).append_left _) ?_
    rw [wantedSinks_concat, unsavedNames_append]
    rw [unsavedNames_append] at hwanted
    refine List.Perm.trans ?_ (hwanted.symm.append_right _)
    -- The sink of `q` is either wanted from now on or released at once.
    cases later.any (·.origin.readsSink q.index) with
    | true =>
      simp only [if_true, List.append_nil, List.append_assoc]
      exact List.Perm.refl _
    | false =>
      have hnone : unsavedNames [] = [] := rfl
      simp only [Bool.false_eq_true, if_false, hnone, List.append_nil, List.append_assoc]
      exact (List.perm_append_comm_assoc _ _ _).append_left _

lemma releases_perm (h : ofRecipe r = .ok plan) :
    plan.releases.Perm (unsavedNames plan.statements) := by
  have hperm := releasesFrom_perm h (List.nil_append plan.statements).symm
  rwa [wantedSinks_nil_left] at hperm

/-- What a plan releases depends on the sinks of its recipe only, up to order. -/
lemma releases_perm_of_sinks {r' : Recipe} {plan' : Plan} (h : ofRecipe r = .ok plan)
    (h' : ofRecipe r' = .ok plan')
    (hsinks : (r'.statements.map (·.sink)).Perm (r.statements.map (·.sink))) :
    plan'.releases.Perm plan.releases := by
  have hnames : ∀ statements : List PlannedStatement, unsavedNames statements =
      ((statements.map (·.sink)).filter (!·.saved)).map (·.name) := by
    intro statements
    rw [List.filter_map, List.map_map]
    rfl
  have hunsaved : (unsavedNames plan'.statements).Perm (unsavedNames plan.statements) := by
    rw [hnames, hnames, (resolves_statements h').map_sink, (resolves_statements h).map_sink]
    exact (hsinks.filter _).map _
  exact (releases_perm h').trans (hunsaved.trans (releases_perm h).symm)

lemma nodup_releases (h : ofRecipe r = .ok plan) : plan.releases.Nodup := by
  rw [(releases_perm h).nodup_iff]
  exact (nodup_sinks h).sublist (List.filter_sublist.map _)

lemma mem_releases (h : ofRecipe r = .ok plan) {name : String} :
    name ∈ plan.releases ↔ ∃ q ∈ plan.statements, q.sink.saved = false ∧ q.sink.name = name := by
  rw [(releases_perm h).mem_iff]
  simp [unsavedNames, and_assoc]

end Plan

namespace Store

lemma eq_nil_of_lookup {sinks : List (Nat × SinkSlot)} (h : ∀ i, sinks.lookup i = none) :
    sinks = [] := by
  cases sinks with
  | nil => rfl
  | cons entry rest =>
    have hentry := h entry.1
    simp at hentry

lemma Holds.empty {store : Store} {stems : StemMap Buffer} {kept : List Deposit}
    (h : store.Holds stems kept []) : store.stems = ∅ ∧ store.sinks = [] := by
  constructor
  · apply StemMap.ext_get?
    intro s
    rw [h.stem s, StemMap.get?_empty]
    cases stems.get? s <;> rfl
  · apply eq_nil_of_lookup
    intro i
    rw [h.sink i]
    cases kept[i]? <;> rfl

end Store

namespace Execution

variable {r : Recipe} {plan : Plan} {stems : StemMap Buffer} {transforms : Transforms}
  {p : Progress} {out : Output}

/-- What is released so far and what the statements `rest` release are the releases of the plan, and
the sinks saved so far are those of the statements before. -/
structure HoldsReleased (plan : Plan) (before rest : List PlannedStatement) (p : Progress) :
    Prop where
  released : p.store.released ++ plan.releasesFrom rest = plan.releases
  saved : p.saved.map (·.name) = (before.filter (·.sink.saved)).map (·.sink.name)

lemma HoldsReleased.advance {before later : List PlannedStatement} {q : PlannedStatement}
    {p' : Progress} (hp : HoldsReleased plan before (q :: later) p)
    (hadvances : Advances plan stems q later p p') :
    HoldsReleased plan (before ++ [q]) later p' where
  released := by
    rw [hadvances.released, List.append_assoc]
    exact hp.released
  saved := by
    rw [hadvances.saved, hp.saved, List.filter_append, List.map_append, List.filter_singleton]
    cases q.sink.saved <;> rfl

lemma released_runFrom (h : Plan.ofRecipe r = .ok plan)
    (hrun : (runFrom transforms (.start stems plan.stemReaders plan.statements.length)
      plan.statements).result = .ok p) :
    p.store.released = plan.releases ∧ p.saved.map (·.name) = plan.saved := by
  obtain ⟨-, hp⟩ := runFrom_induction (I := HoldsReleased plan) h
    (fun _ _ _ _ _ _ hadvances hp => hp.advance hadvances) (stands_start h stems) ⟨rfl, rfl⟩ hrun
  have hreleased := hp.released
  rw [Plan.releasesFrom, List.append_nil] at hreleased
  exact ⟨hreleased, hp.saved⟩

lemma stands_runFrom (h : Plan.ofRecipe r = .ok plan)
    (hrun : (runFrom transforms (.start stems plan.stemReaders plan.statements.length)
      plan.statements).result = .ok p) : Stands plan stems plan.statements [] p :=
  (runFrom_induction (I := fun _ _ _ => True) h (fun _ _ _ _ _ _ _ _ => trivial)
    (stands_start h stems) trivial hrun).1

end Execution

lemma Execution.released_eq {r : Recipe} {plan : Plan} {stems : StemMap Buffer}
    {transforms : Transforms} {out : Output} (h : Plan.ofRecipe r = .ok plan)
    (hout : (execute plan stems transforms).result = .ok out) :
    out.stats.released = plan.releases := by
  obtain ⟨p, hrun, rfl⟩ := execute_eq_ok hout
  exact (released_runFrom h hrun).1

/-- Where the sinks of a plan are after an execution with this output. -/
structure Execution.SinksEnd (plan : Plan) (stems : StemMap Buffer) (transforms : Transforms)
    (out : Output) : Prop where
  saved : out.saved.map (·.name) = plan.saved
  /-- A sink is released at its last read, or at once if there is none. -/
  released : out.stats.released = plan.releases
  once : out.stats.released.Nodup
  /-- All sinks are released but the saved ones. -/
  mem_released : ∀ name, name ∈ out.stats.released ↔
    ∃ q ∈ plan.statements, q.sink.saved = false ∧ q.sink.name = name
  /-- The store is empty after the last statement. -/
  store : ∃ p : Execution.Progress,
    (Execution.runFrom transforms (.start stems plan.stemReaders plan.statements.length)
      plan.statements).result = .ok p ∧
    out = ⟨p.saved, p.stats⟩ ∧
    p.store.live = 0 ∧ p.store.stems = ∅ ∧ p.store.sinks = []

/-- Every sink of a plan ends in the output or among the released ones, once, and none is left in
store. -/
theorem released_exact (r : Recipe) (plan : Plan) (h : Plan.ofRecipe r = .ok plan)
    (stems : StemMap Buffer) (transforms : Transforms) (out : Output)
    (hout : (execute plan stems transforms).result = .ok out) :
    Execution.SinksEnd plan stems transforms out := by
  obtain ⟨p, hrun, rfl⟩ := Execution.execute_eq_ok hout
  obtain ⟨hreleased, hsaved⟩ := Execution.released_runFrom h hrun
  obtain ⟨kept, -, hholds⟩ := (Execution.stands_runFrom h hrun).holds
  have hlive := (Execution.holdsWanted_runFrom h hrun).live
  rw [Plan.workingSet_eq stems (List.append_nil _).symm, Plan.wantedStems_nil,
    Plan.wantedSinks_nil] at hlive
  have hstats : p.stats.released = plan.releases := hreleased
  refine ⟨hsaved, hstats, ?_, ?_, p, hrun, rfl, hlive, hholds.empty⟩
  · rw [hstats]
    exact Plan.nodup_releases h
  · intro name
    rw [hstats]
    exact Plan.mem_releases h

theorem released_exact_relay :
    Plan.ofRecipe Plan.relay = .ok Plan.relayPlan ∧
    (execute Plan.relayPlan relayStems fun _ b => .ok b).result = .ok relayOutput ∧
    Plan.relayPlan.releases = ["scratch", "dry", "tail"] ∧
    Execution.SinksEnd Plan.relayPlan relayStems (fun _ b => .ok b) relayOutput :=
  ⟨by decide, by decide, by decide, released_exact Plan.relay Plan.relayPlan (by decide)
    relayStems (fun _ b => .ok b) relayOutput (by decide)⟩

end Remix
