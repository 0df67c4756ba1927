import Remix.Proofs.Liveness
import Remix.Proofs.PendingReads

/-!
# What a statement does to the store

A statement that succeeds reads its track and keeps its result. `Advances` says what this does to
the figures of the store and to the output, in terms of the plan alone: which tracks are read for
the last time, and whether anybody reads the new sink. `Stands` is the invariant that this rests on,
and `runFrom_induction` carries any further invariant from the first statement to the last.
-/

namespace Remix

namespace Store

variable {r : Recipe} {plan : Plan} {stems : StemMap Buffer} {store : Store} {kept : List Deposit}
  {before later : List PlannedStatement} {q : PlannedStatement} {reading : Reading}

lemma Holds.mem_stems (h : store.Holds stems kept (q :: later))
    (hread : store.read q.origin = some reading) :
    ∀ s, q.origin = .stem s → ∃ b, stems.get? s = some b := by
  intro s ho
  rw [ho, read, readStem, h.stem s] at hread
  cases hb : stems.get? s with
  | none => simp [hb] at hread
  | some b => exact ⟨b, rfl⟩

lemma exists_deposit (h : Plan.ofRecipe r = .ok plan)
    (hsplit : plan.statements = before ++ q :: later)
    (hkept : kept.map (·.sink) = before.map (·.sink)) {name : String} {j : Nat}
    (ho : q.origin = .sink name j) :
    ∃ d e, kept[j]? = some d ∧ plan.statements[j]? = some e ∧ e.sink = d.sink := by
  have hq : plan.statements[before.length]? = some q := by simp [hsplit]
  obtain ⟨hlt, -, e, he, -⟩ := Plan.origin_sink h hq ho
  have hj := congrArg (·[j]?) hkept
  simp only [List.getElem?_map] at hj
  have hbefore : before[j]? = some e := by rwa [hsplit, List.getElem?_append_left hlt] at he
  rw [hbefore, Option.map_some] at hj
  obtain ⟨d, hd, hde⟩ := Option.map_eq_some_iff.mp hj
  exact ⟨d, e, hd, he, hde.symm⟩

/-- The figures of a store after a read. -/
structure ReadFigures (plan : Plan) (q : PlannedStatement) (later : List PlannedStatement)
    (store store' : Store) : Prop where
  live : store'.live =
    store.live - (Plan.lastReadStem q later).length - (plan.lastReadSink q later).length
  peak : store'.peak = store.peak
  released : store'.released =
    store.released ++ Plan.unsavedNames (plan.lastReadSink q later)

lemma Holds.figures_readStem (h : store.Holds stems kept (q :: later)) {s : Stem}
    (ho : q.origin = .stem s) (hread : store.read q.origin = some reading) :
    ReadFigures plan q later store reading.store := by
  obtain ⟨b, hb⟩ := h.mem_stems hread s ho
  have hslot : store.stems.get? s = some ⟨b, Plan.stemReads later s + 1⟩ := by
    rw [h.stem s, hb, Plan.stemReads_cons, ho, if_pos rfl]
    rfl
  have hsink : plan.lastReadSink q later = [] := by rw [Plan.lastReadSink, ho]
  have hstem : Plan.lastReadStem q later = if Plan.stemReads later s = 0 then [s] else [] := by
    rw [Plan.lastReadStem, ho]
    simp only [Plan.any_stem]
    split <;> simp_all
  rw [ho, read, readStem, hslot, Option.map_some, Option.some.injEq] at hread
  subst hread
  rw [Nat.add_sub_cancel]
  have hreleased : store.released =
      store.released ++ Plan.unsavedNames (plan.lastReadSink q later) := by
    rw [hsink]
    exact (List.append_nil _).symm
  by_cases hn : Plan.stemReads later s = 0
  · rw [if_pos hn] at hstem ⊢
    exact ⟨by rw [hstem, hsink]; rfl, rfl, hreleased⟩
  · rw [if_neg hn] at hstem ⊢
    exact ⟨by rw [hstem, hsink]; rfl, rfl, hreleased⟩

lemma Holds.figures_readSink (h : store.Holds stems kept (q :: later))
    {name : String} {j : Nat} {d : Deposit} {e : PlannedStatement} (ho : q.origin = .sink name j)
    (hd : kept[j]? = some d) (he : plan.statements[j]? = some e) (hde : e.sink = d.sink)
    (hread : store.read q.origin = some reading) :
    ReadFigures plan q later store reading.store := by
  have hslot : store.sinks.lookup j =
      some ⟨⟨d.buffer, Plan.sinkReaders later j + 1⟩, d.sink.name, d.sink.saved⟩ := by
    rw [h.sink j, hd, Plan.sinkReaders_cons, ho]
    simp
  have hstem : Plan.lastReadStem q later = [] := by rw [Plan.lastReadStem, ho]
  have hsink : plan.lastReadSink q later = if Plan.sinkReaders later j = 0 then [e] else [] := by
    rw [Plan.lastReadSink, ho]
    simp only [Plan.any_readsSink, he]
    split <;> simp_all
  rw [ho, read, readSink, hslot, Option.map_some, Option.some.injEq] at hread
  subst hread
  dsimp only
  rw [Nat.add_sub_cancel]
  by_cases hn : Plan.sinkReaders later j = 0
  · rw [if_pos hn] at hsink ⊢
    -- A saved sink leaves the store without a word, since its buffer is in the output.
    have hnames : Plan.unsavedNames [e] = if d.sink.saved then [] else [d.sink.name] := by
      rw [Plan.unsavedNames_singleton, hde]
    refine ⟨?_, ?_, ?_⟩
    · rw [hstem, hsink]
      cases d.sink.saved <;> rfl
    · cases d.sink.saved <;> rfl
    · rw [hsink, hnames]
      cases d.sink.saved with
      | true => exact (List.append_nil _).symm
      | false => rfl
  · rw [if_neg hn] at hsink ⊢
    exact ⟨by rw [hstem, hsink]; rfl, rfl, by rw [hsink]; exact (List.append_nil _).symm⟩

end Store

namespace Execution

variable {r : Recipe} {plan : Plan} {stems : StemMap Buffer} {transforms : Transforms}
  {before later rest : List PlannedStatement} {q : PlannedStatement} {p p' : Progress}

lemma runStatement_eq_ok (h : (runStatement transforms p q).result = .ok p') :
    ∃ reading b, p.store.read q.origin = some reading ∧
      p' = { p with store := reading.store }.keep q b := by
  unfold runStatement at h
  cases hread : p.store.read q.origin with
  | none =>
    rw [hread] at h
    cases h
  | some reading =>
    rw [hread] at h
    dsimp only at h
    rw [Traced.result_bind_ok (Traced.result_tellAll _)] at h
    obtain ⟨b, -, h⟩ := Traced.result_bind_eq_ok_iff.mp h
    refine ⟨reading, b, rfl, ?_⟩
    split at h
    · split at h <;> cases h <;> rfl
    · cases h

/-- The figures of the store and the output after the result of a statement is kept. -/
structure KeepFigures (q : PlannedStatement) (p p' : Progress) : Prop where
  live : p'.store.live = p.store.live + if q.readers = 0 then 0 else 1
  peak : p'.store.peak = if q.readers = 0 then p.store.peak else max p.store.peak p'.store.live
  released : p'.store.released = p.store.released ++ if q.isDead then [q.sink.name] else []
  saved : p'.saved.map (·.name) =
    p.saved.map (·.name) ++ if q.sink.saved then [q.sink.name] else []

lemma Progress.figures_keep (p : Progress) (q : PlannedStatement) (b : Buffer) :
    KeepFigures q p (p.keep q b) := by
  unfold keep Store.insertSaved Store.insert
  by_cases hs : q.sink.saved <;> by_cases hn : q.readers = 0 <;>
    constructor <;> simp [hs, hn, PlannedStatement.isDead, Store.release, Store.hold]

/-- An execution of a plan where the statements `before` have run and `rest` are to come. -/
structure Stands (plan : Plan) (stems : StemMap Buffer) (before rest : List PlannedStatement)
    (p : Progress) : Prop where
  statements : plan.statements = before ++ rest
  holds : ∃ kept : List Deposit, kept.map (·.sink) = before.map (·.sink) ∧
    p.store.Holds stems kept rest

/-- What a statement that succeeds does. -/
structure Advances (plan : Plan) (stems : StemMap Buffer) (q : PlannedStatement)
    (later : List PlannedStatement) (p p' : Progress) : Prop where
  stem : ∀ s, q.origin = .stem s → s ∈ stems.stems
  live : p'.store.live = p.store.live - (Plan.lastReadStem q later).length -
    (plan.lastReadSink q later).length + if later.any (·.origin.readsSink q.index) then 1 else 0
  peak : p'.store.peak =
    if later.any (·.origin.readsSink q.index) then max p.store.peak p'.store.live
    else p.store.peak
  released : p'.store.released = p.store.released ++ plan.releasedBy q later
  saved : p'.saved.map (·.name) =
    p.saved.map (·.name) ++ if q.sink.saved then [q.sink.name] else []

lemma Stands.figures_read (h : Plan.ofRecipe r = .ok plan)
    (hp : Stands plan stems before (q :: later) p) {reading : Reading}
    (hread : p.store.read q.origin = some reading) :
    p.store.ReadFigures plan q later reading.store ∧
      ∃ kept : List Deposit, kept.map (·.sink) = before.map (·.sink) ∧
        reading.store.Holds stems kept later := by
  obtain ⟨kept, hkept, hholds⟩ := hp.holds
  cases ho : q.origin with
  | stem s =>
    obtain ⟨b, hb⟩ := hholds.mem_stems hread s ho
    obtain ⟨reading', hread', -, hstore, -⟩ := hholds.read_stem ho hb
    rw [hread] at hread'
    cases hread'
    exact ⟨hholds.figures_readStem ho hread, kept, hkept, hstore⟩
  | sink name j =>
    obtain ⟨d, e, hd, he, hde⟩ := Store.exists_deposit h hp.statements hkept ho
    obtain ⟨reading', hread', -, hstore, -⟩ := hholds.read_sink ho hd
    rw [hread] at hread'
    cases hread'
    exact ⟨hholds.figures_readSink ho hd he hde hread, kept, hkept, hstore⟩

theorem Stands.advance (h : Plan.ofRecipe r = .ok plan)
    (hp : Stands plan stems before (q :: later) p)
    (hrun : (runStatement transforms p q).result = .ok p') :
    Stands plan stems (before ++ [q]) later p' ∧ Advances plan stems q later p p' := by
  obtain ⟨reading, b, hread, rfl⟩ := runStatement_eq_ok hrun
  obtain ⟨hfigures, kept, hkept, hstore⟩ := hp.figures_read h hread
  have hkeep := Progress.figures_keep { p with store := reading.store } q b
  have hq : plan.statements[before.length]? = some q := by simp [hp.statements]
  have hindex : q.index = kept.length := by
    rw [Plan.index_eq h hq, length_eq_of_map_eq hkept]
  have hcount := Plan.countsAhead h before q later hp.statements
  have hany : later.any (·.origin.readsSink q.index) = decide (q.readers ≠ 0) := by
    rw [Plan.any_readsSink, hcount]
  refine ⟨⟨?_, kept ++ [⟨q.sink, b⟩], ?_, Progress.holds_keep hstore hindex hcount b⟩, ?_⟩
  · rw [hp.statements, List.append_cons]
  · simp [hkept]
  · refine ⟨?_, ?_, ?_, ?_, hkeep.saved⟩
    · intro s ho
      obtain ⟨kept', -, hholds⟩ := hp.holds
      exact StemMap.mem_stems.mpr (hholds.mem_stems hread s ho)
    · rw [hkeep.live, hfigures.live, hany]
      by_cases hn : q.readers = 0 <;> simp [hn]
    · rw [hkeep.peak, hfigures.peak, hany]
      by_cases hn : q.readers = 0 <;> simp [hn]
    · rw [hkeep.released, hfigures.released, Plan.releasedBy, List.append_assoc,
        Plan.any_readsSink_eq_later h hp.statements, hany, Plan.unsavedNames_singleton,
        PlannedStatement.isDead]
      by_cases hn : q.readers = 0 <;> cases q.sink.saved <;> simp [hn]

lemma stands_start (h : Plan.ofRecipe r = .ok plan) (stems : StemMap Buffer) :
    Stands plan stems [] plan.statements
      (.start stems plan.stemReaders plan.statements.length) := by
  refine ⟨rfl, [], rfl, ?_⟩
  rw [Plan.stemReaders_eq h]
  exact Store.holds_seed stems plan.statements _

/-- What every statement preserves holds after any number of them, if it holds before the first. -/
theorem runFrom_prefix_induction
    {I : List PlannedStatement → List PlannedStatement → Progress → Prop}
    (h : Plan.ofRecipe r = .ok plan)
    (hstep : ∀ before q later p p', plan.statements = before ++ q :: later →
      Advances plan stems q later p p' → I before (q :: later) p → I (before ++ [q]) later p')
    (hp : Stands plan stems before (rest ++ later) p) (hI : I before (rest ++ later) p)
    (hrun : (runFrom transforms p rest).result = .ok p') :
    Stands plan stems (before ++ rest) later p' ∧ I (before ++ rest) later p' := by
  induction rest generalizing before p with
  | nil =>
    cases hrun
    rw [List.append_nil]
    exact ⟨hp, hI⟩
  | cons q rest ih =>
    rw [runFrom] at hrun
    obtain ⟨next, hnext, hrest⟩ := Traced.result_bind_eq_ok_iff.mp hrun
    obtain ⟨hstands, hadvances⟩ := hp.advance h hnext
    have hnextI := hstep before q (rest ++ later) p next hp.statements hadvances hI
    rw [List.append_cons]
    exact ih hstands hnextI hrest

/-- What every statement preserves holds after the last one, if it holds before the first. -/
theorem runFrom_induction {I : List PlannedStatement → List PlannedStatement → Progress → Prop}
    (h : Plan.ofRecipe r = .ok plan)
    (hstep : ∀ before q later p p', plan.statements = before ++ q :: later →
      Advances plan stems q later p p' → I before (q :: later) p → I (before ++ [q]) later p')
    (hp : Stands plan stems before rest p) (hI : I before rest p)
    (hrun : (runFrom transforms p rest).result = .ok p') :
    Stands plan stems plan.statements [] p' ∧ I plan.statements [] p' := by
  have hall := hp.statements
  rw [← List.append_nil rest] at hp hI
  rw [hall]
  exact runFrom_prefix_induction h hstep hp hI hrun

/-- An execution that succeeds is a run of all statements. -/
lemma execute_eq_ok {out : Output} (h : (execute plan stems transforms).result = .ok out) :
    ∃ p, (runFrom transforms (.start stems plan.stemReaders plan.statements.length)
      plan.statements).result = .ok p ∧ out = ⟨p.saved, p.stats⟩ := by
  unfold execute at h
  rw [Traced.result_bind_ok (Traced.result_tell _),
    Traced.result_bind_ok (Traced.result_tellAll _)] at h
  obtain ⟨p, hp, h⟩ := Traced.result_bind_eq_ok_iff.mp h
  rw [Traced.result_bind_ok (Traced.result_tell _)] at h
  cases h
  exact ⟨p, hp, rfl⟩

end Execution

end Remix
