import Remix.Proofs.Refinement
import Remix.Proofs.Renumbering
import Remix.Proofs.Scoping

/-!
# Splitting a statement in two

A statement `source -> A -> B -> sink` may be written as `source -> A -> t` and `t -> B -> sink`
with a fresh name `t`. The recipe still has a plan, and its execution saves the same buffers or
fails in the same way. The rate that the results of `B` are checked against is then that of `t`,
which is the rate of the source, since the results of `A` were checked against it.
-/

namespace Remix

/-! ### Names -/

/-- `earlier'` has the sinks of `earlier` and one more, which is called `name`. -/
def AddsName (name : String) (earlier earlier' : List Statement) : Prop :=
  ∀ n, n ∈ sinkNames earlier' ↔ n = name ∨ n ∈ sinkNames earlier

section

variable {name : String} {earlier earlier' : List Statement}

lemma AddsName.scoped (h : AddsName name earlier earlier') {rest : List Statement}
    (hname : name ∉ sinkNames rest) (hrest : Scoped earlier rest) : Scoped earlier' rest := by
  refine hrest.of_names (fun n hn => (h n).mpr (.inr hn)) fun n hn hn' => ?_
  refine ((h n).mp hn').resolve_left ?_
  rintro rfl
  exact hname hn

end

/-- The recipe `before ++ source -> first ++ second -> sink ++ after`. -/
def joined (before after : List Statement) (source : Source) (first second : List Action)
    (sink : Sink) : Recipe :=
  ⟨before ++ ⟨source, first ++ second, sink⟩ :: after⟩

/-- The same recipe with a temporary sink between the two lists of actions. -/
def parted (before after : List Statement) (source : Source) (first second : List Action)
    (sink : Sink) (name : String) : Recipe :=
  ⟨before ++ ⟨source, first, ⟨name, false⟩⟩ :: ⟨.sink name, second, sink⟩ :: after⟩

section

variable {before after : List Statement} {source : Source} {first second : List Action}
  {sink : Sink} {name : String}

lemma scoped_parted (hsink : ∀ t : Stem, sink.name ≠ t.name) (hstem : ∀ t : Stem, name ≠ t.name)
    (hname : name ∉ sinkNames (joined before after source first second sink).statements)
    (h : Scoped [] (joined before after source first second sink).statements) :
    Scoped [] (parted before after source first second sink name).statements := by
  unfold joined at h hname
  unfold parted
  rw [sinkNames_append, List.mem_append, not_or] at hname
  obtain ⟨hbefore, htail⟩ := hname
  have hne : sink.name ≠ name := by
    rintro rfl
    exact htail List.mem_cons_self
  have hafter : name ∉ sinkNames after := fun hm => htail (List.mem_cons_of_mem _ hm)
  obtain ⟨hscoped, hrest⟩ := scoped_append.mp h
  rw [List.nil_append] at hrest
  obtain ⟨hs, hlater⟩ := scoped_cons.mp hrest
  refine scoped_append.mpr ⟨hscoped, ?_⟩
  rw [List.nil_append]
  refine scoped_cons.mpr ⟨?_, scoped_cons.mpr ⟨?_, ?_⟩⟩
  · rintro (⟨n, hsource, hn⟩ | ⟨t, ht, -⟩ | hm)
    · exact hs (.inl ⟨n, hsource, hn⟩)
    · exact hstem t ht
    · exact hbefore hm
  · rintro (⟨n, hsource, ⟨t, ht⟩ | hn⟩ | ⟨t, ht, -⟩ | hm)
    · cases hsource
      exact hstem t ht
    · cases hsource
      exact hn (by simp)
    · exact hsink t ht
    · rw [sinkNames_append, List.mem_append] at hm
      rcases hm with hm | hm
      · exact hs (.inr (.inr hm))
      · exact hne (List.mem_singleton.mp hm)
  · refine AddsName.scoped ?_ hafter hlater
    intro n
    simp only [sinkNames_append, sinkNames_singleton, List.mem_append, List.mem_singleton]
    tauto

lemma exists_plan_parted (hsink : ∀ t : Stem, sink.name ≠ t.name)
    (hstem : ∀ t : Stem, name ≠ t.name)
    (hname : name ∉ sinkNames (joined before after source first second sink).statements)
    (h : ∃ plan, Plan.ofRecipe (joined before after source first second sink) = .ok plan) :
    ∃ plan, Plan.ofRecipe (parted before after source first second sink name) = .ok plan := by
  obtain ⟨hscoped, s, hs, hsaved⟩ := (Plan.exists_plan_iff _).mp h
  refine (Plan.exists_plan_iff _).mpr ⟨scoped_parted hsink hstem hname hscoped, ?_⟩
  simp only [joined, parted, List.mem_append, List.mem_cons] at hs ⊢
  rcases hs with hs | rfl | hs
  · exact ⟨s, .inl hs, hsaved⟩
  · exact ⟨⟨.sink name, second, sink⟩, .inr (.inr (.inl rfl)), hsaved⟩
  · exact ⟨s, .inr (.inr (.inr hs)), hsaved⟩

end

/-! ### Meaning -/

/-- Statement `j` of a recipe corresponds to statement `j'` of the one in which statement `i` is
parted. -/
inductive Corresponds (i : Nat) : Nat → Nat → Prop where
  | before {j : Nat} (h : j < i) : Corresponds i j j
  | first : Corresponds i i i
  | second : Corresponds i i (i + 1)
  | after {j : Nat} (h : i < j) : Corresponds i j (j + 1)

/-- The same failure, at corresponding statements: `statements` is the recipe in which statement `i`
is parted. -/
def FailsAlike (i : Nat) (statements : List Statement) (e e' : RuntimeError) : Prop :=
  ∃ j j' s, Corresponds i j j' ∧ statements[j']? = some s ∧ SameFailure s j j' e e'

namespace Evaluation

variable {transforms : Transforms} {stems : StemMap Buffer} {kept : List Deposit}

/-- The first part keeps a buffer at the rate of the source, from which the second part goes on. -/
lemma related_parted {name : String} (hname : ∀ d ∈ kept, d.sink.name ≠ name)
    {statements : List Statement} {source : Source} {first second : List Action} {sink : Sink}
    (hfirst : statements[kept.length]? = some ⟨source, first, ⟨name, false⟩⟩)
    (hsecond : statements[kept.length + 1]? = some ⟨.sink name, second, sink⟩) :
    Related (FailsAlike kept.length statements)
      (fun d kept' => ∃ c, kept' = kept ++ [⟨⟨name, false⟩, c⟩, d])
      (evaluateStatement transforms stems kept ⟨source, first ++ second, sink⟩).result
      (evaluateFrom transforms stems kept
        [⟨source, first, ⟨name, false⟩⟩, ⟨.sink name, second, sink⟩]).result := by
  rw [result_evaluateFrom_cons, result_evaluateStatement, result_evaluateStatement, bind_assoc]
  have hsame : FindAlike [⟨source, first, ⟨name, false⟩⟩] kept kept := fun _ _ _ _ => rfl
  have hinput := input_renumber (hsame _ List.mem_cons_self) stems kept.length kept.length
  refine (hinput.imp_error fun e e' he => ⟨_, _, _, .first, hfirst, he⟩).bind ?_
  rintro b _ rfl
  rw [result_applyAll_append, bind_assoc, bind_assoc]
  have hactions := applyAll_renumber (s := ⟨source, first, ⟨name, false⟩⟩) (fun _ ha => ha)
    transforms kept.length kept.length b.rate b
  refine (hactions.imp_error fun e e' he => ⟨_, _, _, .first, hfirst, he⟩).self.bind ?_
  rintro c _ ⟨rfl, hc⟩
  -- The second part finds the buffer that was just kept, and checks its results against its rate.
  have hrate : c.rate = b.rate := rate_of_applyAll rfl hc
  have hfound : ∀ i, input stems (kept ++ [⟨⟨name, false⟩, c⟩]) i (.sink name) = .ok c := by
    intro i
    have hnone : kept.find? (·.sink.name = name) = none := by simpa using hname
    simp [input, hnone]
  change Related _ _ _ (evaluateFrom transforms stems (kept ++ [⟨⟨name, false⟩, c⟩]) _).result
  rw [result_evaluateFrom_cons, result_evaluateStatement, hfound, List.length_append]
  change Related _ _ _
    (((applyAll transforms (kept.length + 1) c.rate second c).result >>= _) >>= _)
  rw [hrate, bind_assoc]
  have hrest := applyAll_renumber (s := ⟨.sink name, second, sink⟩) (fun _ ha => ha)
    transforms kept.length (kept.length + 1) b.rate c
  refine (hrest.imp_error fun e e' he => ⟨_, _, _, .second, hsecond, he⟩).bind ?_
  rintro d _ rfl
  refine .ok ⟨c, ?_⟩
  rw [List.append_assoc, List.singleton_append]

lemma related_before (before tail : List Statement) (transforms : Transforms)
    (stems : StemMap Buffer) :
    Related (FailsAlike before.length (before ++ tail))
      (fun kept kept' => kept = kept' ∧ (evaluateFrom transforms stems [] before).result = .ok kept)
      (evaluateFrom transforms stems [] before).result
      (evaluateFrom transforms stems [] before).result := by
  have hsame : FindAlike before [] [] := fun _ _ _ _ => rfl
  refine ((hsame.evaluateFrom transforms stems).imp_error ?_).self
  rintro e e' ⟨k, s, hs, he⟩
  obtain ⟨hlt, -⟩ := List.getElem?_eq_some_iff.mp hs
  simp only [List.length_nil, Nat.zero_add] at he
  exact ⟨k, k, s, .before hlt, (List.getElem?_append_left hlt).trans hs, he⟩

/-- The temporary buffer is hidden from the statements to come. -/
lemma hides_parted (kept : List Deposit) (name : String) (c : Buffer) (d : Deposit) :
    Hides (· = name) 1 (kept ++ [d]) (kept ++ [⟨⟨name, false⟩, c⟩, d]) where
  length := by simp
  find := by
    intro n hn
    have hne : ¬ name = n := fun he => hn he.symm
    simp [List.find?_append, hne]
  saved := by simp [saved]

lemma related_after {after statements : List Statement} {name : String}
    (hafter : ∀ k, statements[kept.length + 1 + k + 1]? = after[k]?)
    (hsources : ∀ s ∈ after, ∀ n, s.source = .sink n → ¬ n = name) (c : Buffer) (d : Deposit) :
    Related (FailsAlike kept.length statements) (fun kept kept' => saved kept' = saved kept)
      (evaluateFrom transforms stems (kept ++ [d]) after).result
      (evaluateFrom transforms stems (kept ++ [⟨⟨name, false⟩, c⟩, d]) after).result := by
  have hsame := (hides_parted kept name c d).evaluateFrom hsources transforms stems
  refine (hsame.imp_error ?_).imp_ok fun _ _ h => h.saved
  rintro e e' ⟨k, s, hs, he⟩
  rw [List.length_append, List.length_singleton] at he
  exact ⟨kept.length + 1 + k, kept.length + 1 + k + 1, s, .after (by omega),
    (hafter k).trans hs, he⟩

lemma related_evaluate {before after : List Statement} {source : Source}
    {first second : List Action} {sink : Sink} {name : String}
    (hname : name ∉ sinkNames (joined before after source first second sink).statements)
    (hscoped : Scoped [] (joined before after source first second sink).statements)
    (transforms : Transforms) (stems : StemMap Buffer) :
    Related
      (FailsAlike before.length (parted before after source first second sink name).statements)
      (fun kept kept' => saved kept' = saved kept)
      ((joined before after source first second sink).evaluate stems transforms).result
      ((parted before after source first second sink name).evaluate stems transforms).result := by
  -- No other statement reads the temporary sink, or its name would not be a new one.
  have hsources : ∀ s ∈ after, ∀ n, s.source = .sink n → ¬ n = name := by
    rintro s hs _ hsource rfl
    refine hname (hscoped.mem_sinkNames (s := s) ?_ hsource)
    exact List.mem_append_right _ (List.mem_cons_of_mem _ hs)
  change Related _ _
    (evaluateFrom transforms stems [] (before ++ ⟨source, first ++ second, sink⟩ :: after)).result
    (evaluateFrom transforms stems [] (before ++
      ([⟨source, first, ⟨name, false⟩⟩, ⟨.sink name, second, sink⟩] ++ after))).result
  rw [result_evaluateFrom_append, result_evaluateFrom_append]
  refine (related_before before _ transforms stems).bind ?_
  rintro kept _ ⟨rfl, hkept⟩
  obtain ⟨hlength, hnames⟩ := evaluateFrom_names hkept
  have hnew : ∀ d ∈ kept, d.sink.name ≠ name := by
    rintro d hd rfl
    refine hname ?_
    rw [joined, sinkNames_append]
    exact List.mem_append_left _ (hnames d hd)
  have hat : ∀ k, (parted before after source first second sink name).statements[
      kept.length + k]? = (⟨source, first, ⟨name, false⟩⟩ :: ⟨.sink name, second, sink⟩ ::
        after)[k]? := by
    intro k
    rw [parted, hlength, List.getElem?_append_right (Nat.le_add_right _ _), Nat.add_sub_cancel_left]
  rw [result_evaluateFrom_cons, result_evaluateFrom_append, ← hlength]
  refine (related_parted hnew (hat 0) (hat 1)).bind ?_
  rintro d _ ⟨c, rfl⟩
  refine related_after (fun k => ?_) hsources c d
  have hk : kept.length + 1 + k + 1 = kept.length + (k + 2) := by omega
  rw [hk]
  exact hat (k + 2)

end Evaluation

lemma Related.of_agree {ε α β γ δ : Type} {E : ε → ε → Prop} {R : α → γ → Prop}
    {R' : β → δ → Prop} {S : γ → δ → Prop} {x : Except ε α} {y : Except ε β} {z : Except ε γ}
    {w : Except ε δ} (h : Related E S z w) (hx : Agree R x z) (hy : Agree R' y w) :
    Related E (fun a b => ∃ c d, R a c ∧ R' b d ∧ S c d) x y := by
  cases h with
  | error he =>
    cases hx
    cases hy
    exact .error he
  | ok hs =>
    cases hx with
    | ok ha =>
      cases hy with
      | ok hb => exact .ok ⟨_, _, ha, hb, hs⟩

/-- The two statements in the place of the one change nothing in what is saved, nor in how the
execution fails. -/
theorem execute_parted (before after : List Statement) (source : Source)
    (first second : List Action) (sink : Sink) (name : String) (plan : Plan)
    (h : Plan.ofRecipe (joined before after source first second sink) = .ok plan)
    (hsink : ∀ t : Stem, sink.name ≠ t.name) (hstem : ∀ t : Stem, name ≠ t.name)
    (hname : name ∉ sinkNames (joined before after source first second sink).statements) :
    ∃ plan', Plan.ofRecipe (parted before after source first second sink name) = .ok plan' ∧
      ∀ (stems : StemMap Buffer) (transforms : Transforms),
        Related
          (FailsAlike before.length
            (parted before after source first second sink name).statements)
          (fun out out' => out'.saved = out.saved)
          (execute plan stems transforms).result (execute plan' stems transforms).result := by
  obtain ⟨plan', h'⟩ := exists_plan_parted hsink hstem hname ⟨plan, h⟩
  refine ⟨plan', h', fun stems transforms => ?_⟩
  have hscoped := ((Plan.exists_plan_iff _).mp ⟨plan, h⟩).1
  have heval := Evaluation.related_evaluate hname hscoped transforms stems
  have hrun := (Execution.follows_execute h stems transforms).result
  have hrun' := (Execution.follows_execute h' stems transforms).result
  refine (heval.of_agree hrun hrun').imp_ok ?_
  rintro out out' ⟨kept, kept', hout, hout', hsaved⟩
  rw [hout.1, hout'.1, hsaved]

def beatPlan : Plan :=
  ⟨[⟨0, .stem .vocals, [], ⟨"voice", true⟩, 0⟩,
    ⟨1, .stem .drums, [.late, .flat], ⟨"beat", false⟩, 1⟩,
    ⟨2, .sink "beat" 1, [.sharp], ⟨"wet", true⟩, 0⟩], { drums := some 1, vocals := some 1 }⟩

theorem execute_parted_beat :
    let before : List Statement := [⟨.stem .vocals, [], ⟨"voice", true⟩⟩]
    let after : List Statement := [⟨.sink "beat", [.sharp], ⟨"wet", true⟩⟩]
    let r := joined before after (.stem .drums) [.late] [.flat] ⟨"beat", false⟩
    let r' := parted before after (.stem .drums) [.late] [.flat] ⟨"beat", false⟩ "moved"
    Plan.ofRecipe r = .ok beatPlan ∧ (∀ t : Stem, "beat" ≠ t.name) ∧
    (∀ t : Stem, "moved" ≠ t.name) ∧ "moved" ∉ sinkNames r.statements ∧
    ∃ plan', Plan.ofRecipe r' = .ok plan' ∧ ∀ (stems : StemMap Buffer) (transforms : Transforms),
      Related (FailsAlike 1 r'.statements) (fun out out' => out'.saved = out.saved)
        (execute beatPlan stems transforms).result (execute plan' stems transforms).result := by
  have hbeat : ∀ t : Stem, "beat" ≠ t.name := fun t => by cases t <;> decide
  have hmoved : ∀ t : Stem, "moved" ≠ t.name := fun t => by cases t <;> decide
  exact ⟨by decide, hbeat, hmoved, by decide,
    execute_parted _ _ _ _ _ _ _ beatPlan (by decide) hbeat hmoved (by decide)⟩

end Remix
