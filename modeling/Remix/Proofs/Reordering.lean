import Remix.Proofs.Refinement
import Remix.Proofs.Release
import Remix.Proofs.Renumbering
import Remix.Proofs.Scoping

/-!
# Exchanging two statements

Two statements that stand next to each other may change places if the second does not read the
first. The recipe still has a plan, the execution succeeds as before, and what is saved and released
is the same up to order. Under the evaluation that keeps everything the two statements commute:
neither finds the other's deposit, and those that follow find both, in whichever order they were
kept.
-/

namespace Remix

variable {earlier before after : List Statement} {s t : Statement}

lemma Scoped.swap {rest : List Statement} (h : Scoped earlier (s :: t :: rest))
    (hread : t.source ≠ .sink s.sink.name) : Scoped earlier (t :: s :: rest) := by
  obtain ⟨hs, htail⟩ := scoped_cons.mp h
  obtain ⟨ht, hrest⟩ := scoped_cons.mp htail
  have hnew := Statement.name_notMem_of_not_faulty ht
  rw [sinkNames_append, sinkNames_singleton, List.mem_append, List.mem_singleton, not_or] at hnew
  refine scoped_cons.mpr ⟨?_, scoped_cons.mpr ⟨?_, ?_⟩⟩
  · refine t.not_faulty_of_names ht (fun n hsource hn => ?_) fun hn => ?_
    · rw [sinkNames_append, List.mem_append] at hn
      refine hn.resolve_right fun hn => hread ?_
      rw [hsource, List.mem_singleton.mp hn]
    · rw [sinkNames_append]
      exact List.mem_append_left _ hn
  · refine s.not_faulty_of_names hs (fun n _ hn => ?_) fun hn => ?_
    · rw [sinkNames_append]
      exact List.mem_append_left _ hn
    · rw [sinkNames_append, List.mem_append] at hn
      exact hn.resolve_right fun hn => hnew.2 (List.mem_singleton.mp hn).symm
  · have hnames : ∀ n, n ∈ sinkNames (earlier ++ [t] ++ [s]) ↔
        n ∈ sinkNames (earlier ++ [s] ++ [t]) := by
      intro n
      simp only [sinkNames_append, sinkNames_singleton, List.mem_append]
      tauto
    exact hrest.of_names (fun n hn => (hnames n).mpr hn) fun n _ hn => (hnames n).mp hn

/-- The recipe `before`, `s`, `t`, `after`. -/
def paired (before after : List Statement) (s t : Statement) : Recipe :=
  ⟨before ++ s :: t :: after⟩

lemma scoped_paired (h : Scoped [] (paired before after s t).statements)
    (hread : t.source ≠ .sink s.sink.name) :
    Scoped [] (paired before after t s).statements := by
  obtain ⟨hbefore, hpair⟩ := scoped_append.mp h
  exact scoped_append.mpr ⟨hbefore, hpair.swap hread⟩

/-- The first of the two does not read the second. -/
lemma not_read_of_scoped (h : Scoped [] (paired before after s t).statements) :
    s.source ≠ .sink t.sink.name ∧ s.sink.name ≠ t.sink.name := by
  obtain ⟨-, hpair⟩ := scoped_append.mp h
  obtain ⟨hs, htail⟩ := scoped_cons.mp hpair
  have hnew := Scoped.name_notMem htail List.mem_cons_self
  rw [sinkNames_append, sinkNames_singleton, List.mem_append, List.mem_singleton, not_or] at hnew
  exact ⟨fun hsource => hnew.1 (Statement.mem_sinkNames_of_not_faulty hs hsource), hnew.2 ∘ Eq.symm⟩

lemma paired_perm (before after : List Statement) (s t : Statement) :
    (paired before after t s).statements.Perm (paired before after s t).statements :=
  (List.Perm.swap s t after).append_left before

lemma exists_plan_paired (hread : t.source ≠ .sink s.sink.name)
    (h : ∃ plan, Plan.ofRecipe (paired before after s t) = .ok plan) :
    ∃ plan, Plan.ofRecipe (paired before after t s) = .ok plan := by
  obtain ⟨hscoped, u, hu, hsaved⟩ := (Plan.exists_plan_iff_scoped _).mp h
  refine (Plan.exists_plan_iff_scoped _).mpr ⟨scoped_paired hscoped hread, u, ?_, hsaved⟩
  exact (paired_perm before after s t).mem_iff.mpr hu

namespace Evaluation

variable {transforms : Transforms} {stems : StemMap Buffer} {kept all : List Deposit}
  {d e : Deposit}

/-- A deposit makes no difference to a statement that does not read it. -/
lemma evaluateStatement_concat (hd : s.source ≠ .sink d.sink.name) :
    (evaluateStatement transforms stems (kept ++ [d]) s).result = .ok e ↔
      (evaluateStatement transforms stems kept s).result = .ok e := by
  have hsame : FindAlike [s] kept kept := fun _ _ _ _ => rfl
  have hunread : ∀ u ∈ [s], u.source ≠ .sink d.sink.name := by simpa using hd
  exact ((hsame.concat_left hunread).evaluateStatement transforms stems).eq_ok_iff

/-- Deposits of two names are found in either order. -/
lemma FindAlike.swap (hne : d.sink.name ≠ e.sink.name) (rest : List Statement)
    (kept : List Deposit) : FindAlike rest (kept ++ [d] ++ [e]) (kept ++ [e] ++ [d]) := by
  intro _ _ name _
  by_cases hd : d.sink.name = name
  · have he : ¬ e.sink.name = name := fun he => hne (hd.trans he.symm)
    simp [hd, he]
  · by_cases he : e.sink.name = name <;> simp [hd, he]

/-- Two statements commute that do not read each other: those that follow find both deposits in
either order. -/
theorem evaluateFrom_swap (hs : s.source ≠ .sink t.sink.name) (ht : t.source ≠ .sink s.sink.name)
    (hne : s.sink.name ≠ t.sink.name)
    (h : (evaluateFrom transforms stems kept (s :: t :: after)).result = .ok all) :
    ∃ d e new, d.sink = s.sink ∧ e.sink = t.sink ∧ all = kept ++ [d] ++ [e] ++ new ∧
      (evaluateFrom transforms stems kept (t :: s :: after)).result =
        .ok (kept ++ [e] ++ [d] ++ new) := by
  obtain ⟨d, hd, hrest⟩ := Traced.result_bind_eq_ok_iff.mp h
  obtain ⟨e, he, hafter⟩ := Traced.result_bind_eq_ok_iff.mp hrest
  have hdsink := evaluateStatement_sink hd
  have hesink := evaluateStatement_sink he
  rw [← hdsink] at ht
  rw [← hesink] at hs
  have he' := (evaluateStatement_concat ht).mp he
  have hd' := (evaluateStatement_concat hs).mpr hd
  rw [← hdsink, ← hesink] at hne
  have hrelated := (FindAlike.swap hne after kept).evaluateFrom transforms stems
  rw [hafter] at hrelated
  obtain ⟨all', hall'⟩ := hrelated.exists_ok_iff.mp ⟨all, rfl⟩
  rw [hall'] at hrelated
  obtain ⟨new, hall, rfl⟩ := hrelated.of_ok
  refine ⟨d, e, new, hdsink, hesink, hall, ?_⟩
  rw [evaluateFrom, Traced.result_bind_ok he', evaluateFrom, Traced.result_bind_ok hd', hall']

end Evaluation

lemma evaluate_paired {transforms : Transforms} {stems : StemMap Buffer} {all : List Deposit}
    (hs : s.source ≠ .sink t.sink.name) (ht : t.source ≠ .sink s.sink.name)
    (hne : s.sink.name ≠ t.sink.name)
    (h : ((paired before after s t).evaluate stems transforms).result = .ok all) :
    ∃ kept d e new, d.sink = s.sink ∧ e.sink = t.sink ∧ all = kept ++ [d] ++ [e] ++ new ∧
      ((paired before after t s).evaluate stems transforms).result =
        .ok (kept ++ [e] ++ [d] ++ new) := by
  unfold Recipe.evaluate paired at h ⊢
  dsimp only at h ⊢
  rw [Evaluation.result_evaluateFrom_append] at h ⊢
  cases hkept : (Evaluation.evaluateFrom transforms stems [] before).result with
  | error err =>
    rw [hkept] at h
    cases h
  | ok kept =>
    rw [hkept] at h
    exact ⟨kept, Evaluation.evaluateFrom_swap hs ht hne h⟩

namespace Evaluation

lemma saved_concat_concat_append (first : List Deposit) (d e : Deposit) (last : List Deposit) :
    saved (first ++ [d] ++ [e] ++ last) = saved first ++ saved [d] ++ saved [e] ++ saved last := by
  rw [saved_append, saved_append, saved_append]

lemma names_saved_singleton (d : Deposit) :
    (saved [d]).map (·.name) = if d.sink.saved then [d.sink.name] else [] := by
  rw [saved_singleton]
  cases d.sink.saved <;> rfl

end Evaluation

lemma actionCount_paired {plan plan' : Plan}
    (h : Plan.ofRecipe (paired before after s t) = .ok plan)
    (h' : Plan.ofRecipe (paired before after t s) = .ok plan') :
    plan'.actionCount = plan.actionCount := by
  unfold Plan.actionCount
  rw [(Plan.resolves_statements h).flatMap_actions, (Plan.resolves_statements h').flatMap_actions]
  exact ((paired_perm before after s t).flatMap_right _).length_eq

/-- The outputs of two runs in which the statements of the sinks `s` and `t` have changed places. -/
structure Output.Swapped (s t : Sink) (out out' : Output) : Prop where
  saved : ∃ first left right last,
    out.saved = first ++ left ++ right ++ last ∧ out'.saved = first ++ right ++ left ++ last ∧
    left.map (·.name) = (if s.saved then [s.name] else []) ∧
    right.map (·.name) = if t.saved then [t.name] else []
  mem_saved : ∀ x, x ∈ out'.saved ↔ x ∈ out.saved
  actionsApplied : out'.stats.actionsApplied = out.stats.actionsApplied
  released : out'.stats.released.Perm out.stats.released

lemma exists_swapped {plan plan' : Plan} {stems : StemMap Buffer} {transforms : Transforms}
    {out : Output} (h : Plan.ofRecipe (paired before after s t) = .ok plan)
    (h' : Plan.ofRecipe (paired before after t s) = .ok plan')
    (hread : t.source ≠ .sink s.sink.name)
    (hout : (execute plan stems transforms).result = .ok out) :
    ∃ out', (execute plan' stems transforms).result = .ok out' ∧
      Output.Swapped s.sink t.sink out out' := by
  obtain ⟨hread', hne⟩ := not_read_of_scoped ((Plan.exists_plan_iff_scoped _).mp ⟨plan, h⟩).1
  obtain ⟨all, hall, hsaved, hactions⟩ := Execution.exists_evaluate h hout
  obtain ⟨kept, d, e, new, hd, he, rfl, hall'⟩ := evaluate_paired hread' hread hne hall
  obtain ⟨out', hout', hsaved'⟩ := Execution.exists_execute h' hall'
  obtain ⟨-, -, -, hactions'⟩ := Execution.exists_evaluate h' hout'
  rw [Evaluation.saved_concat_concat_append] at hsaved hsaved'
  refine ⟨out', hout', ⟨_, _, _, _, hsaved, hsaved', ?_, ?_⟩, fun x => ?_, ?_, ?_⟩
  · rw [Evaluation.names_saved_singleton, hd]
  · rw [Evaluation.names_saved_singleton, he]
  · rw [hsaved, hsaved']
    simp only [List.mem_append]
    tauto
  · rw [hactions, hactions', actionCount_paired h h']
  · rw [Execution.released_eq h hout, Execution.released_eq h' hout']
    exact Plan.releases_perm_of_sinks h h' ((paired_perm before after s t).map _)

/-- Two neighbours of which the second does not read the first may change places. The recipe still
has a plan, which succeeds where the other does; then the saved buffers are the same but for the
order of the two, as many actions are applied, and the same sinks are released. -/
theorem execute_swapped (before after : List Statement) (s t : Statement) (plan : Plan)
    (h : Plan.ofRecipe (paired before after s t) = .ok plan)
    (hread : t.source ≠ .sink s.sink.name) :
    ∃ plan', Plan.ofRecipe (paired before after t s) = .ok plan' ∧
      ∀ (stems : StemMap Buffer) (transforms : Transforms),
        ((∃ out, (execute plan stems transforms).result = .ok out) ↔
          ∃ out', (execute plan' stems transforms).result = .ok out') ∧
        ∀ out out', (execute plan stems transforms).result = .ok out →
          (execute plan' stems transforms).result = .ok out' →
          Output.Swapped s.sink t.sink out out' := by
  obtain ⟨plan', h'⟩ := exists_plan_paired hread ⟨plan, h⟩
  obtain ⟨hread', -⟩ := not_read_of_scoped ((Plan.exists_plan_iff_scoped _).mp ⟨plan, h⟩).1
  refine ⟨plan', h', fun stems transforms => ⟨⟨?_, ?_⟩, ?_⟩⟩
  · rintro ⟨out, hout⟩
    obtain ⟨out', hout', -⟩ := exists_swapped h h' hread hout
    exact ⟨out', hout'⟩
  · rintro ⟨out', hout'⟩
    obtain ⟨out, hout, -⟩ := exists_swapped h' h hread' hout'
    exact ⟨out, hout⟩
  · intro out out' hout hout'
    obtain ⟨found, hfound, hswapped⟩ := exists_swapped h h' hread hout
    rw [hout'] at hfound
    cases hfound
    exact hswapped

/-- The second of two readers of a sink comes first and so is no longer the one that releases it. -/
def secondReader : Recipe :=
  paired [⟨.stem .drums, [.late], ⟨"beat", false⟩⟩] [⟨.sink "wet", [.sharp], ⟨"high", true⟩⟩]
    ⟨.sink "beat", [], ⟨"dry", true⟩⟩ ⟨.sink "beat", [.flat], ⟨"wet", true⟩⟩

def secondReaderPlan : Plan :=
  ⟨[⟨0, .stem .drums, [.late], ⟨"beat", false⟩, 2⟩, ⟨1, .sink "beat" 0, [], ⟨"dry", true⟩, 0⟩,
    ⟨2, .sink "beat" 0, [.flat], ⟨"wet", true⟩, 1⟩,
    ⟨3, .sink "wet" 2, [.sharp], ⟨"high", true⟩, 0⟩], { drums := some 1 }⟩

theorem execute_swapped_secondReader :
    Plan.ofRecipe secondReader = .ok secondReaderPlan ∧
    Source.sink "beat" ≠ .sink "dry" ∧
    ∃ plan', Plan.ofRecipe (paired [⟨.stem .drums, [.late], ⟨"beat", false⟩⟩]
        [⟨.sink "wet", [.sharp], ⟨"high", true⟩⟩] ⟨.sink "beat", [.flat], ⟨"wet", true⟩⟩
        ⟨.sink "beat", [], ⟨"dry", true⟩⟩) = .ok plan' ∧
      ∀ (stems : StemMap Buffer) (transforms : Transforms),
        ((∃ out, (execute secondReaderPlan stems transforms).result = .ok out) ↔
          ∃ out', (execute plan' stems transforms).result = .ok out') ∧
        ∀ out out', (execute secondReaderPlan stems transforms).result = .ok out →
          (execute plan' stems transforms).result = .ok out' →
          Output.Swapped ⟨"dry", true⟩ ⟨"wet", true⟩ out out' :=
  ⟨by decide, by decide,
    execute_swapped [⟨.stem .drums, [.late], ⟨"beat", false⟩⟩]
      [⟨.sink "wet", [.sharp], ⟨"high", true⟩⟩] ⟨.sink "beat", [], ⟨"dry", true⟩⟩
      ⟨.sink "beat", [.flat], ⟨"wet", true⟩⟩ secondReaderPlan (by decide) (by decide)⟩

end Remix
