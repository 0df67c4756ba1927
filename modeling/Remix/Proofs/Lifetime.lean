import Remix.Proofs.Naming

/-!
# Reader counts

The plan of a recipe counts the readers of each sink and of each stem over all statements. Since a
sink is read by later statements only, the count of a sink is that of the statements after it. This
is what lets a store count reads down.
-/

namespace Remix

namespace Plan

def stemReads (statements : List PlannedStatement) (s : Stem) : Nat :=
  statements.countP (·.origin = .stem s)

lemma stemReads_cons (q : PlannedStatement) (rest : List PlannedStatement) (s : Stem) :
    stemReads (q :: rest) s = stemReads rest s + if q.origin = .stem s then 1 else 0 := by
  simp [stemReads, List.countP_cons]

lemma sinkReaders_cons (q : PlannedStatement) (rest : List PlannedStatement) (i : Nat) :
    sinkReaders (q :: rest) i = sinkReaders rest i + if q.origin.readsSink i then 1 else 0 := by
  simp [sinkReaders, List.countP_cons]

/-- Every statement counts as its readers the statements after it that read its sink. -/
def CountsAhead (statements : List PlannedStatement) : Prop :=
  ∀ before q later, statements = before ++ q :: later → q.readers = sinkReaders later q.index

lemma CountsAhead.head {q : PlannedStatement} {rest : List PlannedStatement}
    (h : CountsAhead (q :: rest)) : q.readers = sinkReaders rest q.index := h [] q rest rfl

lemma CountsAhead.tail {q : PlannedStatement} {rest : List PlannedStatement}
    (h : CountsAhead (q :: rest)) : CountsAhead rest := by
  intro before p later hsplit
  exact h (q :: before) p later (by rw [hsplit, List.cons_append])

end Plan

namespace Resolves

variable {earlier rest : List Statement} {planned : List PlannedStatement}

lemma index_eq (h : Resolves earlier rest planned) {i : Nat} {q : PlannedStatement}
    (hq : planned[i]? = some q) : q.index = earlier.length + i := by
  induction h generalizing i with
  | nil => cases hq
  | cons hr _ _ ih =>
    cases i with
    | zero =>
      cases hq
      exact hr.index
    | succ i =>
      have hi := ih hq
      rw [List.length_append, List.length_singleton] at hi
      omega

lemma origin_lt (h : Resolves earlier rest planned) {i j : Nat} {q : PlannedStatement}
    {name : String} (hq : planned[i]? = some q) (ho : q.origin = .sink name j) :
    j < earlier.length + i := by
  induction h generalizing i with
  | nil => cases hq
  | @cons earlier s _ _ _ hr _ _ ih =>
    cases i with
    | zero =>
      cases hq
      have horigin := hr.origin
      rw [ho] at horigin
      generalize s.source = source at horigin
      cases horigin with
      | sink _ hj =>
        obtain ⟨hlt, -⟩ := List.getElem?_eq_some_iff.mp ((hj j).mpr rfl)
        simpa using hlt
    | succ i =>
      have hj := ih hq
      rw [List.length_append, List.length_singleton] at hj
      omega

/-- No statement up to `q` reads the sink of `q`. -/
lemma sinkReaders_eq_later {before later : List PlannedStatement} {q : PlannedStatement}
    (h : Resolves [] rest (before ++ q :: later)) :
    Plan.sinkReaders (before ++ q :: later) q.index = Plan.sinkReaders later q.index := by
  have hq : (before ++ q :: later)[before.length]? = some q := by simp
  have hindex := h.index_eq hq
  rw [List.length_nil, Nat.zero_add] at hindex
  -- A reader at `i` up to `q` would read a sink before `i`, while the sink of `q` is not before it.
  have hbefore : Plan.sinkReaders (before ++ [q]) q.index = 0 := by
    rw [Plan.sinkReaders, List.countP_eq_zero]
    intro p hp hreads
    obtain ⟨i, hi⟩ := List.mem_iff_getElem?.mp hp
    obtain ⟨hlt, -⟩ := List.getElem?_eq_some_iff.mp hi
    rw [List.length_append, List.length_singleton] at hlt
    have hi' : (before ++ q :: later)[i]? = some p := by
      rw [List.append_cons, List.getElem?_append_left (by simpa using hlt), hi]
    cases ho : p.origin with
    | stem s => simp [ho, Origin.readsSink] at hreads
    | sink name j =>
      have hj := h.origin_lt hi' ho
      simp only [ho, Origin.readsSink, decide_eq_true_eq] at hreads
      rw [List.length_nil] at hj
      omega
  rw [List.append_cons, Plan.sinkReaders, List.countP_append]
  change Plan.sinkReaders (before ++ [q]) q.index + Plan.sinkReaders later q.index = _
  rw [hbefore, Nat.zero_add]

end Resolves

namespace Plan

variable {r : Recipe} {plan : Plan}

lemma resolves_statements (h : ofRecipe r = .ok plan) :
    Resolves [] r.statements plan.statements := by
  obtain ⟨planned, hp, rfl, -⟩ := resolves_of_ofRecipe h
  exact hp.setReaders _

lemma readers_eq (h : ofRecipe r = .ok plan) {q : PlannedStatement} (hq : q ∈ plan.statements) :
    q.readers = sinkReaders plan.statements q.index := by
  obtain ⟨planned, -, rfl, -⟩ := resolves_of_ofRecipe h
  obtain ⟨p, -, rfl⟩ := List.mem_map.mp hq
  simp [ofResolved, sinkReaders, List.countP_map, Function.comp_def]

lemma stemReaders_eq (h : ofRecipe r = .ok plan) :
    plan.stemReaders = .ofFn (stemReaders? plan.statements) := by
  obtain ⟨planned, -, rfl, -⟩ := resolves_of_ofRecipe h
  have hcount : stemReaders? planned = stemReaders? (ofResolved planned).statements := by
    funext s
    simp [ofResolved, stemReaders?, List.countP_map, Function.comp_def]
  rw [← hcount]
  rfl

lemma countsAhead (h : ofRecipe r = .ok plan) : CountsAhead plan.statements := by
  intro before q later hsplit
  have hr := resolves_statements h
  rw [hsplit] at hr
  rw [readers_eq h (by simp [hsplit]), hsplit, hr.sinkReaders_eq_later]

end Plan

end Remix
