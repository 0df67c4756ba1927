import Mathlib.Data.List.Perm.Basic
import Remix.Audio.Buffer
import Remix.Proofs.Readers

/-!
# Buffers that are still wanted

Between two statements of a plan, a stem or sink is wanted if a statement to come reads it. When a
statement reads its track for the last time, the track is wanted no more, and its own sink is wanted
if somebody reads it. From this follow the size of the working set and the order in which sinks are
released, without any store or counter.
-/

namespace Remix

namespace Plan

/-- The stems at hand that statements to come read. -/
def wantedStems (stems : StemMap Buffer) (later : List PlannedStatement) : List Stem :=
  stems.stems.filter fun s => later.any (·.origin = .stem s)

/-- The earlier statements whose sinks are read by statements to come. -/
def wantedSinks (earlier later : List PlannedStatement) : List PlannedStatement :=
  earlier.filter fun d => later.any (·.origin.readsSink d.index)

/-- The number of buffers that are wanted before statement `i`. -/
def workingSet (plan : Plan) (stems : StemMap Buffer) (i : Nat) : Nat :=
  (wantedStems stems (plan.statements.drop i)).length +
    (wantedSinks (plan.statements.take i) (plan.statements.drop i)).length

/-- The stem that `q` is the last to read, where `later` are the statements after `q`. -/
def lastReadStem (q : PlannedStatement) (later : List PlannedStatement) : List Stem :=
  match q.origin with
  | .stem s => if later.any (·.origin = .stem s) then [] else [s]
  | .sink _ _ => []

/-- The statement whose sink `q` is the last to read. -/
def lastReadSink (plan : Plan) (q : PlannedStatement) (later : List PlannedStatement) :
    List PlannedStatement :=
  match q.origin with
  | .stem _ => []
  | .sink _ i => if later.any (·.origin.readsSink i) then [] else plan.statements[i]?.toList

def unsavedNames (statements : List PlannedStatement) : List String :=
  (statements.filter (!·.sink.saved)).map (·.sink.name)

/-- What `q` releases: the sink that it is the last to read, then its own if nobody reads it. -/
def releasedBy (plan : Plan) (q : PlannedStatement) (later : List PlannedStatement) :
    List String :=
  unsavedNames (plan.lastReadSink q later) ++
    if plan.statements.any (·.origin.readsSink q.index) then [] else unsavedNames [q]

/-- What the statements `rest` at the end of a plan release. -/
def releasesFrom (plan : Plan) : List PlannedStatement → List String
  | [] => []
  | q :: later => plan.releasedBy q later ++ releasesFrom plan later

/-- What the statements of a plan release. -/
def releases (plan : Plan) : List String := plan.releasesFrom plan.statements

lemma any_readsSink (statements : List PlannedStatement) (i : Nat) :
    statements.any (·.origin.readsSink i) = decide (sinkReaders statements i ≠ 0) := by
  rw [Bool.eq_iff_iff, decide_eq_true_iff, ne_eq, sinkReaders_eq_zero_iff]
  simp

lemma any_stem (statements : List PlannedStatement) (s : Stem) :
    statements.any (·.origin = .stem s) = decide (stemReads statements s ≠ 0) := by
  rw [Bool.eq_iff_iff, decide_eq_true_iff, stemReads, ne_eq, List.countP_eq_zero]
  simp

@[simp] lemma wantedStems_nil (stems : StemMap Buffer) : wantedStems stems [] = [] := by
  simp [wantedStems]

@[simp] lemma wantedSinks_nil (earlier : List PlannedStatement) : wantedSinks earlier [] = [] := by
  simp [wantedSinks]

@[simp] lemma wantedSinks_nil_left (later : List PlannedStatement) : wantedSinks [] later = [] :=
  rfl

lemma wantedSinks_concat (earlier later : List PlannedStatement) (q : PlannedStatement) :
    wantedSinks (earlier ++ [q]) later =
      wantedSinks earlier later ++ if later.any (·.origin.readsSink q.index) then [q] else [] := by
  rw [wantedSinks, List.filter_append, wantedSinks, List.filter_singleton]
  cases later.any (·.origin.readsSink q.index) <;> rfl

lemma unsavedNames_singleton (q : PlannedStatement) :
    unsavedNames [q] = if q.sink.saved then [] else [q.sink.name] := by
  rw [unsavedNames, List.filter_singleton]
  cases q.sink.saved <;> rfl

lemma unsavedNames_append (ss ts : List PlannedStatement) :
    unsavedNames (ss ++ ts) = unsavedNames ss ++ unsavedNames ts := by
  rw [unsavedNames, List.filter_append, List.map_append, unsavedNames, unsavedNames]

lemma unsavedNames_perm {ss ts : List PlannedStatement} (h : ss.Perm ts) :
    (unsavedNames ss).Perm (unsavedNames ts) := (h.filter _).map _

/-- A stem is wanted until it is read for the last time. -/
lemma wantedStems_cons {stems : StemMap Buffer} {q : PlannedStatement}
    (hq : ∀ s, q.origin = .stem s → s ∈ stems.stems) (later : List PlannedStatement) :
    (wantedStems stems (q :: later)).Perm (lastReadStem q later ++ wantedStems stems later) := by
  have hnodup : (lastReadStem q later).Nodup := by
    unfold lastReadStem
    split
    · split <;> simp
    · simp
  have hmem : ∀ s, s ∈ lastReadStem q later ↔
      q.origin = .stem s ∧ later.any (·.origin = .stem s) = false := by
    intro s
    unfold lastReadStem
    split <;> rename_i ho
    · rename_i t
      by_cases hst : t = s
      · subst hst
        cases hl : later.any (·.origin = .stem t) <;> simp [ho]
      · cases later.any (·.origin = .stem t) <;> simp [ho, hst, Ne.symm hst]
    · simp [ho]
  rw [List.perm_ext_iff_of_nodup]
  · intro s
    rw [List.mem_append, hmem, wantedStems, wantedStems, List.mem_filter, List.mem_filter,
      List.any_cons, Bool.or_eq_true, decide_eq_true_iff]
    have hs := hq s
    cases later.any (·.origin = .stem s)
    · simp only [Bool.false_eq_true, or_false, and_false, and_true]
      exact and_iff_right_of_imp hs
    · simp
  · exact (StemMap.nodup_stems stems).filter _
  · rw [List.nodup_append]
    refine ⟨hnodup, (StemMap.nodup_stems stems).filter _, ?_⟩
    rintro s hs t ht rfl
    obtain ⟨-, hl⟩ := (hmem s).mp hs
    rw [wantedStems, List.mem_filter, hl] at ht
    cases ht.2

variable {r : Recipe} {plan : Plan} {before later : List PlannedStatement} {q : PlannedStatement}

lemma nodup_statements (h : ofRecipe r = .ok plan) : plan.statements.Nodup :=
  (nodup_sinks h).of_map _

lemma mem_lastReadSink (h : ofRecipe r = .ok plan) {d : PlannedStatement} :
    d ∈ plan.lastReadSink q later ↔
      q.origin.readsSink d.index ∧ later.any (·.origin.readsSink d.index) = false ∧
        d ∈ plan.statements := by
  have hget : ∀ i, plan.statements[i]? = some d ↔ d.index = i ∧ d ∈ plan.statements := by
    intro i
    constructor
    · exact fun hi => ⟨index_eq h hi, List.mem_of_getElem? hi⟩
    · rintro ⟨rfl, hd⟩
      obtain ⟨j, hj⟩ := List.mem_iff_getElem?.mp hd
      rwa [index_eq h hj]
  unfold lastReadSink
  split <;> rename_i ho
  · simp [ho]
  · rename_i name i
    rw [ho, Origin.readsSink_sink, decide_eq_true_iff]
    by_cases hd : d.index = i
    · subst hd
      cases later.any (·.origin.readsSink d.index) <;> simp [hget]
    · cases later.any (·.origin.readsSink i) <;> simp [hget, hd]

/-- A sink is wanted until it is read for the last time. -/
lemma wantedSinks_cons (h : ofRecipe r = .ok plan)
    (hsplit : plan.statements = before ++ q :: later) :
    (wantedSinks before (q :: later)).Perm
      (plan.lastReadSink q later ++ wantedSinks before later) := by
  have hall := nodup_statements h
  have hbefore : before.Nodup := by
    rw [hsplit] at hall
    exact hall.of_append_left
  have hq : plan.statements[before.length]? = some q := by
    rw [hsplit, List.getElem?_append_right (Nat.le_refl _), Nat.sub_self]
    rfl
  -- What `q` reads stands before it.
  have hearlier : ∀ d ∈ plan.statements, q.origin.readsSink d.index → d ∈ before := by
    intro d hd hreads
    obtain ⟨j, hj⟩ := List.mem_iff_getElem?.mp hd
    obtain ⟨name, ho⟩ := exists_of_readsSink hreads
    obtain ⟨hlt, -⟩ := origin_sink h hq ho
    rw [index_eq h hj] at hlt
    rw [hsplit, List.getElem?_append_left hlt] at hj
    exact List.mem_of_getElem? hj
  have hnodup : (plan.lastReadSink q later).Nodup := by
    unfold lastReadSink
    split
    · simp
    · rename_i i _
      split
      · simp
      · cases plan.statements[i]? <;> simp
  rw [List.perm_ext_iff_of_nodup]
  · intro d
    rw [List.mem_append, mem_lastReadSink h, wantedSinks, wantedSinks, List.mem_filter,
      List.mem_filter, List.any_cons, Bool.or_eq_true]
    have hmem : d ∈ before → d ∈ plan.statements := by
      rw [hsplit]
      exact List.mem_append_left _
    cases later.any (·.origin.readsSink d.index)
    · simp only [Bool.false_eq_true, or_false, and_false, true_and]
      exact ⟨fun hd => ⟨hd.2, hmem hd.1⟩, fun hd => ⟨hearlier d hd.2 hd.1, hd.1⟩⟩
    · simp
  · exact hbefore.filter _
  · rw [List.nodup_append]
    refine ⟨hnodup, hbefore.filter _, ?_⟩
    rintro d hd e he rfl
    obtain ⟨-, hl, -⟩ := (mem_lastReadSink h).mp hd
    rw [wantedSinks, List.mem_filter, hl] at he
    cases he.2

/-- A sink that nobody reads later is not read at all. -/
lemma any_readsSink_eq_later (h : ofRecipe r = .ok plan)
    (hsplit : plan.statements = before ++ q :: later) :
    plan.statements.any (·.origin.readsSink q.index) = later.any (·.origin.readsSink q.index) := by
  have hr := resolves_statements h
  rw [hsplit] at hr
  rw [any_readsSink, any_readsSink, hsplit, hr.sinkReaders_eq_later]

lemma workingSet_eq (stems : StemMap Buffer) {rest : List PlannedStatement}
    (hsplit : plan.statements = before ++ rest) :
    plan.workingSet stems before.length =
      (wantedStems stems rest).length + (wantedSinks before rest).length := by
  rw [workingSet, hsplit, List.drop_left, List.take_left]

/-- The track of a statement to come is wanted. -/
lemma workingSet_pos (h : ofRecipe r = .ok plan) {stems : StemMap Buffer}
    (hq : ∀ s, q.origin = .stem s → s ∈ stems.stems)
    (hsplit : plan.statements = before ++ q :: later) :
    0 < plan.workingSet stems before.length := by
  rw [workingSet_eq stems hsplit]
  cases ho : q.origin with
  | stem s =>
    have hs : s ∈ wantedStems stems (q :: later) :=
      List.mem_filter.mpr ⟨hq s ho, by simp [ho]⟩
    exact Nat.add_pos_left (List.length_pos_of_mem hs) _
  | sink name j =>
    have hi : plan.statements[before.length]? = some q := by simp [hsplit]
    obtain ⟨hlt, -, d, hd, -⟩ := origin_sink h hi ho
    have hbefore : before[j]? = some d := by rwa [hsplit, List.getElem?_append_left hlt] at hd
    have hwanted : d ∈ wantedSinks before (q :: later) := by
      refine List.mem_filter.mpr ⟨List.mem_of_getElem? hbefore, ?_⟩
      simp [ho, index_eq h hd]
    exact Nat.add_pos_right _ (List.length_pos_of_mem hwanted)

/-- From one statement to the next, the tracks that are read for the last time leave the working
set, and the new sink joins what stays if it is read. -/
lemma workingSet_succ (h : ofRecipe r = .ok plan) {stems : StemMap Buffer}
    (hq : ∀ s, q.origin = .stem s → s ∈ stems.stems)
    (hsplit : plan.statements = before ++ q :: later) :
    ∃ staying,
      plan.workingSet stems before.length =
        (lastReadStem q later).length + (plan.lastReadSink q later).length + staying ∧
      plan.workingSet stems (before ++ [q]).length =
        staying + if later.any (·.origin.readsSink q.index) then 1 else 0 := by
  have hstems := (wantedStems_cons hq later).length_eq
  have hsinks := (wantedSinks_cons h hsplit).length_eq
  rw [List.length_append] at hstems hsinks
  have hnext : plan.statements = (before ++ [q]) ++ later := by rw [hsplit, List.append_cons]
  refine ⟨(wantedStems stems later).length + (wantedSinks before later).length, ?_, ?_⟩
  · rw [workingSet_eq stems hsplit, hstems, hsinks]
    omega
  · rw [workingSet_eq stems hnext, wantedSinks_concat, List.length_append]
    split
    · rw [List.length_singleton]
      omega
    · rw [List.length_nil]
      omega

end Plan

end Remix
