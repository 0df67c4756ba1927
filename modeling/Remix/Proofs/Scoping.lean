import Remix.Proofs.Naming

/-!
# Well scoped statements

Statements are well scoped after others if none of them is faulty there. What stands before them
matters only through its names: the names that a statement reads have to be among them, and the name
that it gives must not.
-/

namespace Remix

/-- No statement of `rest` is faulty where `earlier` stands before it. -/
def Scoped (earlier rest : List Statement) : Prop := ∀ i, ¬ FaultyAt earlier rest i

variable {earlier earlier' rest : List Statement} {s : Statement}

lemma scoped_nil (earlier : List Statement) : Scoped earlier [] := fun _ => not_faultyAt_nil

lemma scoped_cons :
    Scoped earlier (s :: rest) ↔ ¬ s.Faulty earlier ∧ Scoped (earlier ++ [s]) rest := by
  constructor
  · intro h
    exact ⟨fun hs => h 0 (faultyAt_zero.mpr hs), fun i hi => h (i + 1) (faultyAt_succ.mpr hi)⟩
  · rintro ⟨hs, hrest⟩ i hi
    cases i with
    | zero => exact hs (faultyAt_zero.mp hi)
    | succ i => exact hrest i (faultyAt_succ.mp hi)

lemma scoped_append {ss : List Statement} :
    Scoped earlier (ss ++ rest) ↔ Scoped earlier ss ∧ Scoped (earlier ++ ss) rest := by
  induction ss generalizing earlier with
  | nil => simp [scoped_nil]
  | cons s ss ih => rw [List.cons_append, scoped_cons, ih, scoped_cons, and_assoc,
      List.append_assoc, List.singleton_append]

namespace Statement

/-- A statement stays right where the names that it reads are still there and its own name is still
free. -/
lemma not_faulty_of_names (hs : ¬ s.Faulty earlier)
    (hsource : ∀ n, s.source = .sink n → n ∈ sinkNames earlier → n ∈ sinkNames earlier')
    (hsink : s.sink.name ∈ sinkNames earlier' → s.sink.name ∈ sinkNames earlier) :
    ¬ s.Faulty earlier' := by
  rintro (⟨n, hn, hfault⟩ | hfault)
  · exact hs (.inl ⟨n, hn, hfault.imp_right fun hnew hold => hnew (hsource n hn hold)⟩)
  · exact hs (.inr (hfault.imp_right hsink))

lemma name_notMem_of_not_faulty (hs : ¬ s.Faulty earlier) : s.sink.name ∉ sinkNames earlier :=
  fun hm => hs (.inr (.inr hm))

lemma mem_sinkNames_of_not_faulty (hs : ¬ s.Faulty earlier) {n : String}
    (hsource : s.source = .sink n) : n ∈ sinkNames earlier := by
  by_contra hn
  exact hs (.inl ⟨n, hsource, .inr hn⟩)

end Statement

/-- Well scoped statements may stand after more names, as long as they give none of them. -/
lemma Scoped.of_names (hold : ∀ n ∈ sinkNames earlier, n ∈ sinkNames earlier')
    (hnew : ∀ n ∈ sinkNames rest, n ∈ sinkNames earlier' → n ∈ sinkNames earlier)
    (h : Scoped earlier rest) : Scoped earlier' rest := by
  induction rest generalizing earlier earlier' with
  | nil => exact scoped_nil earlier'
  | cons s rest ih =>
    obtain ⟨hs, hrest⟩ := scoped_cons.mp h
    refine scoped_cons.mpr ⟨?_, ih (fun n hn => ?_) (fun n hn hn' => ?_) hrest⟩
    · exact s.not_faulty_of_names hs (fun n _ => hold n) (hnew _ List.mem_cons_self)
    · rw [sinkNames_append, List.mem_append] at hn ⊢
      exact hn.imp_left (hold n)
    · rw [sinkNames_append, List.mem_append] at hn' ⊢
      exact hn'.imp_left (hnew n (List.mem_cons_of_mem _ hn))

/-- A well scoped statement gives a new name. -/
lemma Scoped.name_notMem (h : Scoped earlier rest) (hs : s ∈ rest) :
    s.sink.name ∉ sinkNames earlier := by
  induction rest generalizing earlier with
  | nil => cases hs
  | cons t rest ih =>
    obtain ⟨ht, hrest⟩ := scoped_cons.mp h
    rcases List.mem_cons.mp hs with rfl | hs
    · exact Statement.name_notMem_of_not_faulty ht
    · intro hm
      refine ih hrest hs ?_
      rw [sinkNames_append]
      exact List.mem_append_left _ hm

/-- A source of a well scoped recipe names a sink of it. -/
lemma Scoped.mem_sinkNames (h : Scoped earlier rest) (hs : s ∈ rest) {name : String}
    (hsource : s.source = .sink name) : name ∈ sinkNames (earlier ++ rest) := by
  induction rest generalizing earlier with
  | nil => cases hs
  | cons t rest ih =>
    obtain ⟨ht, hrest⟩ := scoped_cons.mp h
    rcases List.mem_cons.mp hs with rfl | hs
    · rw [sinkNames_append]
      exact List.mem_append_left _ (Statement.mem_sinkNames_of_not_faulty ht hsource)
    · have hname := ih hrest hs
      rwa [List.append_assoc] at hname

lemma Plan.exists_plan_iff_scoped (r : Recipe) : (∃ plan, ofRecipe r = .ok plan) ↔
    Scoped [] r.statements ∧ ∃ s ∈ r.statements, s.sink.saved := exists_plan_iff r

end Remix
