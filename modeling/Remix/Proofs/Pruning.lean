import Remix.Proofs.Refinement
import Remix.Proofs.Renumbering
import Remix.Proofs.Scoping

/-!
# Statements that feed nothing saved

A statement feeds the mix if its sink is saved, or if a statement that feeds the mix reads it.
`Recipe.pruned` keeps these statements and no others. The pruned recipe still has a plan, and where
the execution of the recipe succeeds, that of the pruned one saves the same buffers. The evaluation
of all statements keeps more deposits, but the statements that are kept find the same ones.
-/

namespace Remix

/-- The chains of sources that end in a saved sink. -/
inductive FeedsMix (statements : List Statement) : Statement → Prop where
  | saved {s : Statement} (h : s ∈ statements) (hs : s.sink.saved) : FeedsMix statements s
  | read {s t : Statement} (h : s ∈ statements) (hread : t.source = .sink s.sink.name)
      (ht : FeedsMix statements t) : FeedsMix statements s

/-- The sink is saved, or one of the statements `later` reads it. -/
def Statement.IsUsed (s : Statement) (later : List Statement) : Prop :=
  s.sink.saved ∨ ∃ t ∈ later, t.source = .sink s.sink.name

instance (s : Statement) (later : List Statement) : Decidable (s.IsUsed later) :=
  inferInstanceAs (Decidable (_ ∨ _))

/-- The statements that feed the mix, where each statement reads a sink before it. -/
def prune : List Statement → List Statement
  | [] => []
  | s :: rest => if s.IsUsed (prune rest) then s :: prune rest else prune rest

def Recipe.pruned (r : Recipe) : Recipe := ⟨prune r.statements⟩

variable {earlier earlier' rest : List Statement} {s t : Statement}

lemma prune_cons_of_used (h : s.IsUsed (prune rest)) : prune (s :: rest) = s :: prune rest := by
  rw [prune, if_pos h]

lemma prune_cons_of_unused (h : ¬ s.IsUsed (prune rest)) : prune (s :: rest) = prune rest := by
  rw [prune, if_neg h]

lemma mem_prune_cons :
    t ∈ prune (s :: rest) ↔ t = s ∧ s.IsUsed (prune rest) ∨ t ∈ prune rest := by
  by_cases hs : s.IsUsed (prune rest)
  · rw [prune_cons_of_used hs, List.mem_cons, and_iff_left hs]
  · rw [prune_cons_of_unused hs]
    simp [hs]

lemma prune_sublist (statements : List Statement) :
    (prune statements).Sublist statements := by
  induction statements with
  | nil => exact .slnil
  | cons s rest ih =>
    unfold prune
    split
    · exact ih.cons_cons s
    · exact ih.cons s

lemma FeedsMix.cons (h : FeedsMix rest t) (s : Statement) : FeedsMix (s :: rest) t := by
  induction h with
  | saved hmem hs => exact .saved (List.mem_cons_of_mem s hmem) hs
  | read hmem hread _ ih => exact .read (List.mem_cons_of_mem s hmem) hread ih

lemma feedsMix_of_mem_prune (h : t ∈ prune rest) : FeedsMix rest t := by
  induction rest generalizing t with
  | nil => cases h
  | cons s rest ih =>
    rcases mem_prune_cons.mp h with ⟨rfl, hsaved | ⟨u, hu, hread⟩⟩ | h
    · exact .saved List.mem_cons_self hsaved
    · exact .read List.mem_cons_self hread ((ih hu).cons t)
    · exact (ih h).cons s

lemma mem_prune_of_saved (h : s ∈ rest) (hs : s.sink.saved) : s ∈ prune rest := by
  induction rest with
  | nil => cases h
  | cons u rest ih =>
    rcases List.mem_cons.mp h with rfl | h
    · exact mem_prune_cons.mpr (.inl ⟨rfl, .inl hs⟩)
    · exact mem_prune_cons.mpr (.inr (ih h))

/-- What a kept statement reads is kept, since it stands before its reader. -/
lemma Scoped.mem_prune_of_read (h : Scoped earlier rest) (hs : s ∈ rest) (ht : t ∈ prune rest)
    (hread : t.source = .sink s.sink.name) : s ∈ prune rest := by
  induction rest generalizing earlier with
  | nil => cases hs
  | cons u rest ih =>
    obtain ⟨hu, hrest⟩ := scoped_cons.mp h
    rcases mem_prune_cons.mp ht with ⟨rfl, -⟩ | hlater
    · -- The first statement reads only what stands before it, and `s` gives a new name.
      exact absurd (Statement.mem_sinkNames_of_not_faulty hu hread) (h.name_notMem hs)
    · rcases List.mem_cons.mp hs with rfl | hs
      · exact mem_prune_cons.mpr (.inl ⟨rfl, .inr ⟨t, hlater, hread⟩⟩)
      · exact mem_prune_cons.mpr (.inr (ih hrest hs hlater))

lemma Scoped.mem_prune_iff (h : Scoped earlier rest) : s ∈ prune rest ↔ FeedsMix rest s := by
  constructor
  · exact feedsMix_of_mem_prune
  · intro hs
    induction hs with
    | saved hmem hsaved => exact mem_prune_of_saved hmem hsaved
    | read hmem hread _ ih => exact h.mem_prune_of_read hmem ih hread

/-- The kept statements are well scoped where every name that they read is still given. -/
lemma Scoped.scoped_prune (h : Scoped earlier rest)
    (hsub : ∀ n ∈ sinkNames earlier', n ∈ sinkNames earlier)
    (hread : ∀ t ∈ prune rest, ∀ n, t.source = .sink n → n ∈ sinkNames earlier →
      n ∈ sinkNames earlier') : Scoped earlier' (prune rest) := by
  induction rest generalizing earlier earlier' with
  | nil => exact scoped_nil earlier'
  | cons s rest ih =>
    obtain ⟨hs, hrest⟩ := scoped_cons.mp h
    by_cases hused : s.IsUsed (prune rest)
    · rw [prune_cons_of_used hused] at hread ⊢
      refine scoped_cons.mpr ⟨?_, ih hrest (fun n hn => ?_) fun t ht n hsource hn => ?_⟩
      · exact s.not_faulty_of_names hs (hread s List.mem_cons_self) (hsub _)
      · rw [sinkNames_append, List.mem_append] at hn ⊢
        exact hn.imp_left (hsub n)
      · rw [sinkNames_append, List.mem_append] at hn ⊢
        exact hn.imp_left (hread t (List.mem_cons_of_mem s ht) n hsource)
    · rw [prune_cons_of_unused hused] at hread ⊢
      refine ih hrest (fun n hn => ?_) fun t ht n hsource hn => ?_
      · rw [sinkNames_append]
        exact List.mem_append_left _ (hsub n hn)
      · rw [sinkNames_append, List.mem_append] at hn
        refine hn.elim (hread t ht n hsource) fun hn => ?_
        rw [List.mem_singleton.mp hn] at hsource
        exact absurd (.inr ⟨t, ht, hsource⟩) hused

lemma exists_plan_pruned {r : Recipe} (h : ∃ plan, Plan.ofRecipe r = .ok plan) :
    ∃ plan, Plan.ofRecipe r.pruned = .ok plan := by
  obtain ⟨hscoped, s, hs, hsaved⟩ := (Plan.exists_plan_iff_scoped r).mp h
  refine (Plan.exists_plan_iff_scoped _).mpr ⟨?_, s, mem_prune_of_saved hs hsaved, hsaved⟩
  exact hscoped.scoped_prune (fun _ hn => hn) fun _ _ _ _ hn => hn

namespace Evaluation

variable {transforms : Transforms} {stems : StemMap Buffer} {kept kept' all : List Deposit}

/-- Where all statements succeed, so do those that feed the mix, and they save the same. -/
theorem evaluateFrom_prune (h : FindAlike (prune rest) kept kept')
    (hsaved : saved kept' = saved kept)
    (hall : (evaluateFrom transforms stems kept rest).result = .ok all) :
    ∃ all', (evaluateFrom transforms stems kept' (prune rest)).result = .ok all' ∧
      saved all' = saved all := by
  -- Both lists of deposits grow, that of the kept statements by fewer.
  induction rest generalizing kept kept' with
  | nil =>
    cases hall
    exact ⟨kept', rfl, hsaved⟩
  | cons s rest ih =>
    obtain ⟨d, hd, hrest⟩ := Traced.result_bind_eq_ok_iff.mp hall
    have hsink := evaluateStatement_sink hd
    by_cases hused : s.IsUsed (prune rest)
    · rw [prune_cons_of_used hused] at h ⊢
      have hd' := (h.evaluateStatement transforms stems).eq_ok_iff.mp hd
      rw [evaluateFrom, Traced.result_bind_ok hd']
      refine ih ((h.mono fun t ht => List.mem_cons_of_mem s ht).concat d) ?_ hrest
      rw [saved_append, saved_append, hsaved]
    · rw [prune_cons_of_unused hused] at h ⊢
      have hunread : ∀ t ∈ prune rest, t.source ≠ .sink d.sink.name := by
        intro t ht hsource
        rw [hsink] at hsource
        exact hused (.inr ⟨t, ht, hsource⟩)
      have hunsaved : ¬ d.sink.saved := by
        rw [hsink]
        exact fun hs => hused (.inl hs)
      refine ih (h.concat_left hunread) ?_ hrest
      rw [saved_append, saved_singleton, if_neg hunsaved, List.append_nil, hsaved]

end Evaluation

/-- The statements that feed the mix make a recipe of their own. It has a plan, and it saves the
same buffers where the execution of the whole recipe succeeds. -/
theorem execute_pruned (r : Recipe) (plan : Plan) (h : Plan.ofRecipe r = .ok plan) :
    r.pruned.statements.Sublist r.statements ∧
    (∀ s, s ∈ r.pruned.statements ↔ FeedsMix r.statements s) ∧
    ∃ plan', Plan.ofRecipe r.pruned = .ok plan' ∧
      ∀ (stems : StemMap Buffer) (transforms : Transforms) (out : Output),
        (execute plan stems transforms).result = .ok out →
        ∃ out', (execute plan' stems transforms).result = .ok out' ∧ out'.saved = out.saved := by
  have hscoped := ((Plan.exists_plan_iff_scoped r).mp ⟨plan, h⟩).1
  obtain ⟨plan', h'⟩ := exists_plan_pruned ⟨plan, h⟩
  refine ⟨prune_sublist _, fun s => hscoped.mem_prune_iff, plan', h', ?_⟩
  intro stems transforms out hout
  obtain ⟨kept, hkept, hsaved, -⟩ := Execution.exists_evaluate h hout
  obtain ⟨kept', hkept', hsame⟩ := Evaluation.evaluateFrom_prune (fun _ _ _ _ => rfl) rfl hkept
  obtain ⟨out', hout', hsaved'⟩ := Execution.exists_execute h' hkept'
  exact ⟨out', hout', by rw [hsaved', hsame, hsaved]⟩

/-- A chain of two statements that feeds nothing, and a sink that is last read in vain. -/
def sideChain : Recipe :=
  ⟨[⟨.stem .drums, [.late], ⟨"beat", false⟩⟩, ⟨.stem .bass, [], ⟨"low", false⟩⟩,
    ⟨.sink "beat", [.flat], ⟨"wet", true⟩⟩, ⟨.sink "low", [.sharp], ⟨"lower", false⟩⟩,
    ⟨.sink "beat", [], ⟨"echo", false⟩⟩]⟩

def sideChainPlan : Plan :=
  ⟨[⟨0, .stem .drums, [.late], ⟨"beat", false⟩, 2⟩, ⟨1, .stem .bass, [], ⟨"low", false⟩, 1⟩,
    ⟨2, .sink "beat" 0, [.flat], ⟨"wet", true⟩, 0⟩,
    ⟨3, .sink "low" 1, [.sharp], ⟨"lower", false⟩, 0⟩,
    ⟨4, .sink "beat" 0, [], ⟨"echo", false⟩, 0⟩], { bass := some 1, drums := some 1 }⟩

theorem execute_pruned_sideChain :
    Plan.ofRecipe sideChain = .ok sideChainPlan ∧
    sideChain.pruned.statements =
      [⟨.stem .drums, [.late], ⟨"beat", false⟩⟩, ⟨.sink "beat", [.flat], ⟨"wet", true⟩⟩] ∧
    sideChain.pruned.statements.Sublist sideChain.statements ∧
    (∀ s, s ∈ sideChain.pruned.statements ↔ FeedsMix sideChain.statements s) ∧
    ∃ plan', Plan.ofRecipe sideChain.pruned = .ok plan' ∧
      ∀ (stems : StemMap Buffer) (transforms : Transforms) (out : Output),
        (execute sideChainPlan stems transforms).result = .ok out →
        ∃ out', (execute plan' stems transforms).result = .ok out' ∧ out'.saved = out.saved :=
  ⟨by decide, by decide, execute_pruned sideChain sideChainPlan (by decide)⟩

end Remix
