import Mathlib.Order.Bounds.Basic
import Mathlib.Tactic.Common
import Remix.Proofs.Counting

/-!
# Recipes that have a plan

A statement is faulty when its source refers to nothing before it, or when its sink takes a name
that it may not take. This file shows that planning accepts a recipe exactly when no statement is
faulty and something is saved, that it blames the first faulty statement otherwise, and what a plan
records of each statement. The invariant of the loop is `Scope.Describes`: the scope looks up
exactly the sinks of the statements before.
-/

namespace Remix

def sinkNames (statements : List Statement) : List String := statements.map (·.sink.name)

namespace Statement

/-- The source is a name, but the name of a stem or of no sink among `earlier`. -/
def SourceFault (earlier : List Statement) (s : Statement) : Prop :=
  ∃ name, s.source = .sink name ∧ ((∃ t : Stem, name = t.name) ∨ name ∉ sinkNames earlier)

/-- The sink carries the name of a stem that it is not made from, or that of an earlier sink. -/
def SinkFault (earlier : List Statement) (s : Statement) : Prop :=
  (∃ t : Stem, s.sink.name = t.name ∧ s.source ≠ .stem t) ∨ s.sink.name ∈ sinkNames earlier

def Faulty (earlier : List Statement) (s : Statement) : Prop :=
  s.SourceFault earlier ∨ s.SinkFault earlier

end Statement

/-- Statement `i` of `rest` has a faulty source where `earlier` stands before `rest`. -/
def SourceFaultAt (earlier rest : List Statement) (i : Nat) : Prop :=
  ∃ s, rest[i]? = some s ∧ s.SourceFault (earlier ++ rest.take i)

/-- Statement `i` of `rest` is faulty where `earlier` stands before `rest`. -/
def FaultyAt (earlier rest : List Statement) (i : Nat) : Prop :=
  ∃ s, rest[i]? = some s ∧ s.Faulty (earlier ++ rest.take i)

/-- The origin that a source means after `earlier`: a stem itself, or the one statement whose sink
has the name. -/
inductive RefersTo (earlier : List Statement) : Source → Origin → Prop where
  | stem (s : Stem) : RefersTo earlier (.stem s) (.stem s)
  | sink {name : String} {j : Nat} (hstem : ∀ t : Stem, name ≠ t.name)
      (hj : ∀ k, (sinkNames earlier)[k]? = some name ↔ k = j) :
      RefersTo earlier (.sink name) (.sink name j)

/-- What a plan records of the statement `s` after `earlier`. -/
structure PlannedStatement.Records (q : PlannedStatement) (earlier : List Statement)
    (s : Statement) : Prop where
  index : q.index = earlier.length
  origin : RefersTo earlier s.source q.origin
  actions : q.actions = s.actions
  sink : q.sink = s.sink

/-- Planned statements that record the statements `rest` after `earlier`, in order. -/
inductive Resolves : List Statement → List Statement → List PlannedStatement → Prop where
  | nil {earlier : List Statement} : Resolves earlier [] []
  | cons {earlier : List Statement} {s : Statement} {rest : List Statement} {q : PlannedStatement}
      {planned : List PlannedStatement} (hq : q.Records earlier s) (hs : ¬ s.SinkFault earlier)
      (h : Resolves (earlier ++ [s]) rest planned) : Resolves earlier (s :: rest) (q :: planned)

@[simp] lemma sinkNames_append (ss ts : List Statement) :
    sinkNames (ss ++ ts) = sinkNames ss ++ sinkNames ts := List.map_append

@[simp] lemma sinkNames_singleton (s : Statement) : sinkNames [s] = [s.sink.name] := rfl

@[simp] lemma length_sinkNames (ss : List Statement) : (sinkNames ss).length = ss.length :=
  List.length_map _

lemma sourceFaultAt_zero {earlier rest : List Statement} {s : Statement} :
    SourceFaultAt earlier (s :: rest) 0 ↔ s.SourceFault earlier := by
  simp [SourceFaultAt]

lemma sourceFaultAt_succ {earlier rest : List Statement} {s : Statement} {i : Nat} :
    SourceFaultAt earlier (s :: rest) (i + 1) ↔ SourceFaultAt (earlier ++ [s]) rest i := by
  simp [SourceFaultAt]

lemma faultyAt_zero {earlier rest : List Statement} {s : Statement} :
    FaultyAt earlier (s :: rest) 0 ↔ s.Faulty earlier := by
  simp [FaultyAt]

lemma faultyAt_succ {earlier rest : List Statement} {s : Statement} {i : Nat} :
    FaultyAt earlier (s :: rest) (i + 1) ↔ FaultyAt (earlier ++ [s]) rest i := by
  simp [FaultyAt]

lemma not_faultyAt_nil {earlier : List Statement} {i : Nat} : ¬ FaultyAt earlier [] i := by
  simp [FaultyAt]

lemma isLeast_faultyAt_succ {earlier rest : List Statement} {s : Statement} {i : Nat}
    (hs : ¬ s.Faulty earlier) (h : IsLeast {j | FaultyAt (earlier ++ [s]) rest j} i) :
    IsLeast {j | FaultyAt earlier (s :: rest) j} (i + 1) := by
  refine ⟨faultyAt_succ.mpr h.1, ?_⟩
  intro j hj
  cases j with
  | zero => exact absurd (faultyAt_zero.mp hj) hs
  | succ j =>
    have hle : i ≤ j := h.2 (faultyAt_succ.mp hj)
    omega

namespace Scope

/-- The scope looks up a name exactly at the statement of `earlier` whose sink carries it. So no
two of these sinks share a name. -/
def Describes (scope : Scope) (earlier : List Statement) : Prop :=
  ∀ name i, scope.lookup name = some i ↔ (sinkNames earlier)[i]? = some name

variable {scope : Scope} {earlier : List Statement}

lemma describes_nil : Describes [] [] := by
  intro name i
  simp

lemma Describes.lookup_eq_none (h : scope.Describes earlier) {name : String} :
    scope.lookup name = none ↔ name ∉ sinkNames earlier := by
  constructor
  · intro hn hm
    obtain ⟨i, hi⟩ := List.mem_iff_getElem?.mp hm
    rw [(h name i).mpr hi] at hn
    cases hn
  · intro hm
    cases hl : scope.lookup name with
    | none => rfl
    | some i => exact absurd (List.mem_iff_getElem?.mpr ⟨i, (h name i).mp hl⟩) hm

lemma Describes.cons (h : scope.Describes earlier) {s : Statement}
    (hs : s.sink.name ∉ sinkNames earlier) :
    Describes ((s.sink.name, earlier.length) :: scope) (earlier ++ [s]) := by
  intro name i
  rw [List.lookup_cons, sinkNames_append, sinkNames_singleton, getElem?_concat, length_sinkNames]
  by_cases hi : i = earlier.length
  · rw [if_pos hi, hi]
    by_cases hname : name = s.sink.name
    · simp [hname]
    · have hb : (name == s.sink.name) = false := by simpa using hname
      simp [hb, h name, Ne.symm hname]
  · rw [if_neg hi]
    by_cases hname : name = s.sink.name
    · subst hname
      have hn : (sinkNames earlier)[i]? ≠ some s.sink.name := fun hm => hs (List.mem_of_getElem? hm)
      simp [hn, Ne.symm hi]
    · have hb : (name == s.sink.name) = false := by simpa using hname
      rw [hb, h name i]

lemma Describes.find_eq_ok_iff (h : scope.Describes earlier) {i : Nat} {source : Source}
    {origin : Origin} : scope.find i source = .ok origin ↔ RefersTo earlier source origin := by
  cases source with
  | stem t =>
    constructor
    · intro ho
      cases ho
      exact .stem t
    · intro ho
      cases ho
      rfl
  | sink name =>
    constructor
    · intro ho
      simp only [find] at ho
      split at ho
      · rename_i j hstem hj
        cases ho
        refine .sink (Stem.ofName?_eq_none_iff.mp hstem) (fun k => ?_)
        rw [← h name k, hj, Option.some.injEq, eq_comm]
      · cases ho
    · intro ho
      cases ho with
      | sink hstem hj =>
        rename_i j
        have hl : scope.lookup name = some j := (h name j).mpr ((hj j).mpr rfl)
        simp [find, Stem.ofName?_eq_none_iff.mpr hstem, hl]

lemma Describes.find_of_sourceFault (h : scope.Describes earlier) {i : Nat} {s : Statement}
    (hs : s.SourceFault earlier) :
    ∃ name, scope.find i s.source = .error (.unknownReference name i) := by
  obtain ⟨name, hsource, hname⟩ := hs
  refine ⟨name, ?_⟩
  rw [hsource]
  rcases hname with ⟨t, rfl⟩ | hname
  · simp [find]
  · simp [find, h.lookup_eq_none.mpr hname]

lemma Describes.find_of_not_sourceFault (h : scope.Describes earlier) {i : Nat} {s : Statement}
    (hs : ¬ s.SourceFault earlier) : ∃ origin, scope.find i s.source = .ok origin := by
  cases hsource : s.source with
  | stem t => exact ⟨_, rfl⟩
  | sink name =>
    have hstem : ∀ t : Stem, name ≠ t.name := fun t ht => hs ⟨name, hsource, .inl ⟨t, ht⟩⟩
    have hmem : name ∈ sinkNames earlier := by
      by_contra hn
      exact hs ⟨name, hsource, .inr hn⟩
    obtain ⟨j, hj⟩ := List.mem_iff_getElem?.mp hmem
    have hl : scope.lookup name = some j := (h name j).mpr hj
    exact ⟨.sink name j, by simp [find, Stem.ofName?_eq_none_iff.mpr hstem, hl]⟩

lemma define_of_stem_source {i : Nat} {source : Source} {name : String}
    (hstem : ∀ t : Stem, name = t.name → source = .stem t) :
    scope.define i source name = define.add scope i name := by
  unfold define
  split
  · rename_i t ht
    rw [if_pos (hstem t (Stem.ofName?_eq_some_iff.mp ht))]
  · rfl

lemma define_of_reserved {i : Nat} {source : Source} {t : Stem} (ht : source ≠ .stem t) :
    scope.define i source t.name = .error (.reservedName t.name i) := by
  simp [define, ht]

lemma Describes.define_of_repeated (h : scope.Describes earlier) {i j : Nat} {source : Source}
    {name : String} (hstem : ∀ t : Stem, name = t.name → source = .stem t)
    (hj : (sinkNames earlier)[j]? = some name) :
    scope.define i source name = .error (.duplicateName name i j) := by
  rw [define_of_stem_source hstem, define.add, (h name j).mpr hj]

lemma Describes.define_of_sinkFault (h : scope.Describes earlier) {i : Nat} {s : Statement}
    (hs : s.SinkFault earlier) :
    ∃ e, scope.define i s.source s.sink.name = .error e ∧ e.statement? = some i ∧
      ∀ name k, e ≠ .unknownReference name k := by
  by_cases hr : ∃ t : Stem, s.sink.name = t.name ∧ s.source ≠ .stem t
  · obtain ⟨t, ht, hne⟩ := hr
    refine ⟨.reservedName t.name i, ?_, rfl, by simp⟩
    rw [ht, define_of_reserved hne]
  · have hmem : s.sink.name ∈ sinkNames earlier := hs.resolve_left hr
    obtain ⟨j, hj⟩ := List.mem_iff_getElem?.mp hmem
    refine ⟨.duplicateName s.sink.name i j, ?_, rfl, by simp⟩
    apply h.define_of_repeated _ hj
    intro t ht
    by_contra hne
    exact hr ⟨t, ht, hne⟩

lemma Describes.define_of_not_sinkFault (h : scope.Describes earlier) {i : Nat} {s : Statement}
    (hs : ¬ s.SinkFault earlier) :
    scope.define i s.source s.sink.name = .ok ((s.sink.name, i) :: scope) := by
  have hstem : ∀ t : Stem, s.sink.name = t.name → s.source = .stem t := by
    intro t ht
    by_contra hne
    exact hs (.inl ⟨t, ht, hne⟩)
  have hl : scope.lookup s.sink.name = none := h.lookup_eq_none.mpr fun hm => hs (.inr hm)
  rw [define_of_stem_source hstem, define.add, hl]

end Scope

namespace Plan

variable {scope : Scope} {earlier : List Statement}

lemma result_resolve_cons (h : scope.Describes earlier) {s : Statement} {i : Nat}
    {origin : Origin} (hs : ¬ s.SinkFault earlier) (ho : scope.find i s.source = .ok origin)
    (rest : List Statement) :
    (resolve scope i (s :: rest)).result =
      (resolve ((s.sink.name, i) :: scope) (i + 1) rest).result.map
        fun planned => ⟨i, origin, s.actions, s.sink, 0⟩ :: planned := by
  rw [resolve, ho, Traced.ofExcept_ok_bind, h.define_of_not_sinkFault hs, Traced.ofExcept_ok_bind,
    Traced.result_bind_ok (Traced.result_tell _), Traced.result_bind]
  cases (resolve ((s.sink.name, i) :: scope) (i + 1) rest).result <;> rfl

lemma result_resolve_of_faulty (h : scope.Describes earlier) {s : Statement} {i : Nat}
    (hs : s.Faulty earlier) (rest : List Statement) :
    ∃ e, (resolve scope i (s :: rest)).result = .error e ∧ e.statement? = some i ∧
      ((∃ name k, e = .unknownReference name k) ↔ s.SourceFault earlier) := by
  by_cases hsource : s.SourceFault earlier
  · obtain ⟨name, hf⟩ := h.find_of_sourceFault (i := i) hsource
    refine ⟨.unknownReference name i, ?_, rfl, by simp [hsource]⟩
    rw [resolve, hf, Traced.ofExcept_error_bind, Traced.result_fail]
  · obtain ⟨origin, hf⟩ := h.find_of_not_sourceFault (i := i) hsource
    obtain ⟨e, hd, he, hne⟩ := h.define_of_sinkFault (i := i) (hs.resolve_left hsource)
    refine ⟨e, ?_, he, by simp [hsource, hne]⟩
    rw [resolve, hf, Traced.ofExcept_ok_bind, hd, Traced.ofExcept_error_bind, Traced.result_fail]

/-- Either every statement is resolved, or the first faulty one is blamed. -/
theorem resolve_cases (h : scope.Describes earlier) (rest : List Statement) :
    (∃ planned, (resolve scope earlier.length rest).result = .ok planned ∧
      Resolves earlier rest planned) ∨
    ∃ e i, (resolve scope earlier.length rest).result = .error e ∧
      IsLeast {j | FaultyAt earlier rest j} i ∧ e.statement? = some (earlier.length + i) ∧
      ((∃ name k, e = .unknownReference name k) ↔ SourceFaultAt earlier rest i) := by
  -- The scope grows with the statements read, so `Describes` is carried along with both general.
  induction rest generalizing scope earlier with
  | nil => exact .inl ⟨[], rfl, .nil⟩
  | cons s rest ih =>
    by_cases hs : s.Faulty earlier
    · obtain ⟨e, hr, he, hu⟩ := result_resolve_of_faulty (i := earlier.length) h hs rest
      refine .inr ⟨e, 0, hr, ⟨faultyAt_zero.mpr hs, fun j _ => Nat.zero_le j⟩, he, ?_⟩
      rw [hu, sourceFaultAt_zero]
    · have hsource : ¬ s.SourceFault earlier := fun hf => hs (.inl hf)
      have hsink : ¬ s.SinkFault earlier := fun hf => hs (.inr hf)
      obtain ⟨origin, ho⟩ := h.find_of_not_sourceFault (i := earlier.length) hsource
      have hscope := h.cons (s := s) fun hm => hsink (.inr hm)
      have hlen : (earlier ++ [s]).length = earlier.length + 1 := List.length_append
      have hrest := ih hscope
      rw [hlen] at hrest
      rw [result_resolve_cons h hsink ho]
      rcases hrest with ⟨planned, hr, hp⟩ | ⟨e, i, hr, hi, he, hu⟩
      · rw [hr]
        refine .inl ⟨_, rfl, .cons ⟨rfl, h.find_eq_ok_iff.mp ho, rfl, rfl⟩ hsink hp⟩
      · rw [hr]
        refine .inr ⟨e, i + 1, rfl, isLeast_faultyAt_succ hs hi, ?_, ?_⟩
        · rw [he]
          congr 1
          omega
        · rw [hu, sourceFaultAt_succ]

end Plan

namespace Resolves

variable {earlier rest : List Statement} {planned : List PlannedStatement}

lemma length_eq (h : Resolves earlier rest planned) : planned.length = rest.length := by
  induction h with
  | nil => rfl
  | cons _ _ _ ih => simp [ih]

lemma records (h : Resolves earlier rest planned) {i : Nat} {s : Statement}
    (hi : rest[i]? = some s) :
    ∃ q, planned[i]? = some q ∧ q.Records (earlier ++ rest.take i) s := by
  induction h generalizing i with
  | nil => cases hi
  | @cons earlier t rest q planned hq _ _ ih =>
    cases i with
    | zero =>
      cases hi
      exact ⟨q, rfl, by simpa using hq⟩
    | succ i =>
      obtain ⟨q', hq', hr⟩ := ih hi
      refine ⟨q', hq', ?_⟩
      rwa [List.append_assoc] at hr

lemma map_sink (h : Resolves earlier rest planned) :
    planned.map (·.sink) = rest.map (·.sink) := by
  induction h with
  | nil => rfl
  | cons hq _ _ ih => rw [List.map_cons, List.map_cons, ih, hq.sink]

lemma flatMap_actions (h : Resolves earlier rest planned) :
    planned.flatMap (·.actions) = rest.flatMap (·.actions) := by
  induction h with
  | nil => rfl
  | cons hq _ _ ih => rw [List.flatMap_cons, List.flatMap_cons, ih, hq.actions]

lemma not_sourceFault {s : Statement} {origin : Origin} (h : RefersTo earlier s.source origin) :
    ¬ s.SourceFault earlier := by
  rintro ⟨name, hsource, hname⟩
  rw [hsource] at h
  cases h with
  | sink hstem hj =>
    rename_i j
    rcases hname with ⟨t, ht⟩ | hn
    · exact hstem t ht
    · exact hn (List.mem_of_getElem? ((hj j).mpr rfl))

lemma not_faultyAt (h : Resolves earlier rest planned) (i : Nat) : ¬ FaultyAt earlier rest i := by
  induction h generalizing i with
  | nil => exact not_faultyAt_nil
  | cons hq hs _ ih =>
    cases i with
    | zero =>
      rw [faultyAt_zero]
      exact fun hf => hf.elim (not_sourceFault hq.origin) hs
    | succ i =>
      rw [faultyAt_succ]
      exact ih i

lemma setReaders (h : Resolves earlier rest planned) (count : PlannedStatement → Nat) :
    Resolves earlier rest (planned.map fun q => { q with readers := count q }) := by
  induction h with
  | nil => exact .nil
  | cons hq hs _ ih => exact .cons ⟨hq.index, hq.origin, hq.actions, hq.sink⟩ hs ih

end Resolves

namespace Plan

lemma saved_ofResolved {rest : List Statement} {planned : List PlannedStatement}
    (h : planned.map (·.sink) = rest.map (·.sink)) :
    (ofResolved planned).saved = (rest.filter (·.sink.saved)).map (·.sink.name) := by
  have hplanned : (ofResolved planned).saved =
      ((planned.map (·.sink)).filter (·.saved)).map (·.name) := by
    simp [saved, ofResolved, List.filter_map, Function.comp_def]
  rw [hplanned, h]
  simp [List.filter_map, Function.comp_def]

lemma saved_isEmpty_iff {rest : List Statement} {planned : List PlannedStatement}
    (h : planned.map (·.sink) = rest.map (·.sink)) :
    (ofResolved planned).saved.isEmpty ↔ ∀ s ∈ rest, ¬ s.sink.saved := by
  simp [saved_ofResolved h]

lemma ofRecipe_of_resolves {r : Recipe} {planned : List PlannedStatement}
    (h : (resolve [] 0 r.statements).result = .ok planned) :
    ofRecipe r = if (ofResolved planned).saved.isEmpty then .error .emptyOutput
      else .ok (ofResolved planned) := by
  have hplan : (extend [] empty r.statements).result = .ok (ofResolved planned) := by
    rw [result_extend_empty, h]
    rfl
  unfold ofRecipe build
  rw [Traced.result_bind_ok hplan]
  by_cases he : (ofResolved planned).saved.isEmpty
  · simp only [he, if_true]
    rfl
  · simp only [he]
    rfl

lemma ofRecipe_of_fault {r : Recipe} {e : NamingError}
    (h : (resolve [] 0 r.statements).result = .error e) : ofRecipe r = .error e := by
  have hplan : (extend [] empty r.statements).result = .error e := by
    rw [result_extend_empty, h]
    rfl
  unfold ofRecipe build
  rw [Traced.result_bind_error hplan]

theorem resolves_of_ofRecipe {r : Recipe} {plan : Plan} (h : ofRecipe r = .ok plan) :
    ∃ planned, Resolves [] r.statements planned ∧ plan = ofResolved planned ∧
      ∃ s ∈ r.statements, s.sink.saved := by
  rcases resolve_cases Scope.describes_nil r.statements with
    ⟨planned, hr, hp⟩ | ⟨e, i, hr, -⟩
  · rw [ofRecipe_of_resolves hr] at h
    by_cases he : (ofResolved planned).saved.isEmpty
    · rw [if_pos he] at h
      cases h
    · rw [if_neg he] at h
      cases h
      refine ⟨planned, hp, rfl, ?_⟩
      rw [saved_isEmpty_iff hp.map_sink] at he
      push Not at he
      exact he
  · rw [ofRecipe_of_fault hr] at h
    cases h

lemma exists_plan_iff (r : Recipe) : (∃ plan, ofRecipe r = .ok plan) ↔
    (∀ i, ¬ FaultyAt [] r.statements i) ∧ ∃ s ∈ r.statements, s.sink.saved := by
  constructor
  · rintro ⟨plan, h⟩
    obtain ⟨planned, hp, -, hsaved⟩ := resolves_of_ofRecipe h
    exact ⟨hp.not_faultyAt, hsaved⟩
  · rintro ⟨hf, s, hs, hsaved⟩
    rcases resolve_cases Scope.describes_nil r.statements with
      ⟨planned, hr, hp⟩ | ⟨e, i, -, hi, -⟩
    · refine ⟨ofResolved planned, ?_⟩
      rw [ofRecipe_of_resolves hr, if_neg]
      rw [saved_isEmpty_iff hp.map_sink]
      exact fun hn => hn s hs hsaved
    · exact absurd hi.1 (hf i)

lemma ofRecipe_of_faultyAt {r : Recipe} {k : Nat} (h : FaultyAt [] r.statements k) :
    ∃ e i, ofRecipe r = .error e ∧ IsLeast {j | FaultyAt [] r.statements j} i ∧
      e.statement? = some i ∧
      ((∃ name j, e = .unknownReference name j) ↔ SourceFaultAt [] r.statements i) := by
  rcases resolve_cases Scope.describes_nil r.statements with
    ⟨planned, -, hp⟩ | ⟨e, i, hr, hi, he, hu⟩
  · exact absurd h (hp.not_faultyAt k)
  · refine ⟨e, i, ofRecipe_of_fault hr, hi, ?_, hu⟩
    rw [he, List.length_nil, Nat.zero_add]

lemma ofRecipe_eq_emptyOutput_iff (r : Recipe) : ofRecipe r = .error .emptyOutput ↔
    (∀ i, ¬ FaultyAt [] r.statements i) ∧ ∀ s ∈ r.statements, ¬ s.sink.saved := by
  by_cases hf : ∀ i, ¬ FaultyAt [] r.statements i
  · rcases resolve_cases Scope.describes_nil r.statements with
      ⟨planned, hr, hp⟩ | ⟨e, i, -, hi, -⟩
    · rw [ofRecipe_of_resolves hr, ← saved_isEmpty_iff hp.map_sink]
      by_cases he : (ofResolved planned).saved.isEmpty
      · simp [he, hf]
      · simp [he]
    · exact absurd hi.1 (hf i)
  · obtain ⟨k, hk⟩ := not_forall_not.mp hf
    obtain ⟨e, i, hr, -, he, -⟩ := ofRecipe_of_faultyAt hk
    constructor
    · intro h
      rw [hr] at h
      cases h
      cases he
    · exact fun h => absurd h.1 hf

lemma ofRecipe_records {r : Recipe} {plan : Plan} (h : ofRecipe r = .ok plan) {i : Nat}
    {s : Statement} (hs : r.statements[i]? = some s) :
    ∃ q : PlannedStatement, plan.statements[i]? = some q ∧ q.index = i ∧
      q.Records (r.statements.take i) s := by
  obtain ⟨planned, hp, rfl, -⟩ := resolves_of_ofRecipe h
  obtain ⟨q, hq, hr⟩ := (hp.setReaders fun q => sinkReaders planned q.index).records hs
  obtain ⟨hi, -⟩ := List.getElem?_eq_some_iff.mp hs
  refine ⟨q, hq, ?_, hr⟩
  rw [hr.index, List.nil_append, List.length_take]
  omega

/-- A recipe has a plan exactly when its names are well scoped and it saves something. The first
faulty statement is blamed otherwise. A plan keeps the statements and points each source to the one
statement that it refers to. -/
theorem ofRecipe_well_scoped (r : Recipe) :
    ((∃ plan, ofRecipe r = .ok plan) ↔
      (∀ i, ¬ FaultyAt [] r.statements i) ∧ ∃ s ∈ r.statements, s.sink.saved) ∧
    ((∃ i, FaultyAt [] r.statements i) →
      ∃ e i, ofRecipe r = .error e ∧ IsLeast {j | FaultyAt [] r.statements j} i ∧
        e.statement? = some i ∧
        ((∃ name k, e = .unknownReference name k) ↔ SourceFaultAt [] r.statements i)) ∧
    (ofRecipe r = .error .emptyOutput ↔
      (∀ i, ¬ FaultyAt [] r.statements i) ∧ ∀ s ∈ r.statements, ¬ s.sink.saved) ∧
    ∀ plan, ofRecipe r = .ok plan →
      plan.statements.length = r.statements.length ∧
      (∀ i s, r.statements[i]? = some s → ∃ q : PlannedStatement,
        plan.statements[i]? = some q ∧ q.index = i ∧ q.Records (r.statements.take i) s) ∧
      plan.saved = (r.statements.filter (·.sink.saved)).map (·.sink.name) := by
  refine ⟨exists_plan_iff r, ?_, ofRecipe_eq_emptyOutput_iff r, ?_⟩
  · rintro ⟨k, hk⟩
    exact ofRecipe_of_faultyAt hk
  · intro plan h
    obtain ⟨planned, hp, rfl, -⟩ := resolves_of_ofRecipe h
    refine ⟨?_, fun i s hs => ofRecipe_records h hs, saved_ofResolved hp.map_sink⟩
    rw [ofResolved, List.length_map, hp.length_eq]

end Plan

end Remix
