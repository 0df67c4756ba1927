import Remix.Proofs.Checks
import Remix.Proofs.Scoping

/-!
# Where a saved buffer comes from

From every statement a chain of sources leads back to a stem. Whatever the transforms do, what a
statement saves has the sample rate of that stem; it is the stem itself if there are no actions on
the chain, and otherwise a sound buffer. A statement without actions checks nothing, but it hands on
what was checked when it was made.
-/

namespace Remix

/-- The chain of sources of a statement. It begins at the stem `root`, and `actions` are those of
the statements on it, in order. -/
inductive Lineage (statements : List Statement) : Statement → Stem → List Action → Prop where
  | stem {s : Statement} {root : Stem} (h : s ∈ statements) (hsource : s.source = .stem root) :
      Lineage statements s root s.actions
  | sink {s t : Statement} {root : Stem} {actions : List Action} (h : s ∈ statements)
      (hsource : s.source = .sink t.sink.name) (ht : Lineage statements t root actions) :
      Lineage statements s root (actions ++ s.actions)

variable {statements earlier rest : List Statement} {s t : Statement} {root root' : Stem}
  {actions actions' : List Action}

lemma Lineage.mem (h : Lineage statements s root actions) : s ∈ statements := by
  cases h with
  | stem h _ => exact h
  | sink h _ _ => exact h

lemma Lineage.unique
    (hnames : ∀ s ∈ statements, ∀ t ∈ statements, s.sink.name = t.sink.name → s = t)
    (h : Lineage statements s root actions) (h' : Lineage statements s root' actions') :
    root' = root ∧ actions' = actions := by
  induction h generalizing root' actions' with
  | stem _ hsource =>
    cases h' with
    | stem _ hsource' =>
      rw [hsource] at hsource'
      cases hsource'
      exact ⟨rfl, rfl⟩
    | sink _ hsource' _ =>
      rw [hsource] at hsource'
      cases hsource'
  | @sink s t root actions _ hsource ht ih =>
    cases h' with
    | stem _ hsource' =>
      rw [hsource] at hsource'
      cases hsource'
    | @sink _ t' _ _ _ hsource' ht' =>
      rw [hsource, Source.sink.injEq] at hsource'
      cases hnames t ht.mem t' ht'.mem hsource'
      obtain ⟨rfl, rfl⟩ := ih ht'
      exact ⟨rfl, rfl⟩

/-- What actions make of `start`, whatever the transforms do: a buffer of the same sample rate,
which is `start` itself if there are no actions, and sound otherwise. -/
structure Buffer.DescendsFrom (b start : Buffer) (actions : List Action) : Prop where
  rate : b.rate = start.rate
  same_or_sound : (actions = [] ∧ b = start) ∨ (actions ≠ [] ∧ b.IsSound)

lemma Buffer.DescendsFrom.trans {b c start : Buffer} (hb : b.DescendsFrom start actions)
    (hc : c.DescendsFrom b actions') : c.DescendsFrom start (actions ++ actions') := by
  refine ⟨hc.rate.trans hb.rate, ?_⟩
  rcases hc.same_or_sound with ⟨rfl, rfl⟩ | ⟨hactions, hsound⟩
  · rw [List.append_nil]
    exact hb.same_or_sound
  · exact .inr ⟨List.append_ne_nil_of_right_ne_nil actions hactions, hsound⟩

/-- The deposit of a statement whose stem is there: its buffer is `R actions` to the stem at the
beginning of its chain. -/
def Deposit.GoesBack (R : List Action → Buffer → Buffer → Prop) (d : Deposit)
    (statements : List Statement) (stems : StemMap Buffer) : Prop :=
  ∃ s root actions b, Lineage statements s root actions ∧ d.sink = s.sink ∧
    stems.get? root = some b ∧ R actions d.buffer b

/-- The deposit of a statement descends from the stem at the beginning of its chain. -/
def Deposit.HasLineage (d : Deposit) (statements : List Statement) (stems : StemMap Buffer) :
    Prop :=
  d.GoesBack (fun actions b start => b.DescendsFrom start actions) statements stems

namespace Evaluation

variable {transforms : Transforms} {stems : StemMap Buffer} {kept all : List Deposit}
  {b c : Buffer} {d : Deposit}

lemma same_or_sound_of_applyAll {i : Nat} {rate : UInt32}
    (h : (applyAll transforms i rate actions b).result = .ok c) :
    (actions = [] ∧ c = b) ∨ (actions ≠ [] ∧ c.IsSound) := by
  induction actions generalizing b with
  | nil =>
    cases h
    exact .inl ⟨rfl, rfl⟩
  | cons a rest ih =>
    rw [result_applyAll_cons] at h
    cases ha : Execution.applyAction transforms i rate a b with
    | error e =>
      rw [ha] at h
      cases h
    | ok result =>
      rw [ha] at h
      refine .inr ⟨List.cons_ne_nil a rest, ?_⟩
      rcases ih h with ⟨-, rfl⟩ | ⟨-, hsound⟩
      · obtain ⟨-, -, hchecks⟩ := applyAction_eq_ok_iff.mp ha
        exact Buffer.isSound_iff.mpr hchecks
      · exact hsound

lemma evaluateStatement_descends (h : (evaluateStatement transforms stems kept s).result = .ok d) :
    ∃ b, input stems kept kept.length s.source = .ok b ∧ d.buffer.DescendsFrom b s.actions := by
  obtain ⟨b, hb, hc, -⟩ := evaluateStatement_eq_ok h
  exact ⟨b, hb, rate_of_applyAll rfl hc, same_or_sound_of_applyAll hc⟩

/-- What each statement makes of its track, and what is handed on along a chain, every deposit is to
the stem of its chain. -/
theorem goesBack_of_evaluateFrom {R : List Action → Buffer → Buffer → Prop}
    (hstep : ∀ {kept s d}, (evaluateStatement transforms stems kept s).result = .ok d →
      ∃ b, input stems kept kept.length s.source = .ok b ∧ R s.actions d.buffer b)
    (htrans : ∀ {actions actions' b c start}, R actions b start → R actions' c b →
      R (actions ++ actions') c start)
    (hrest : ∀ s ∈ rest, s ∈ statements) (hkept : ∀ d ∈ kept, d.GoesBack R statements stems)
    (h : (evaluateFrom transforms stems kept rest).result = .ok all) :
    ∀ d ∈ all, d.GoesBack R statements stems := by
  induction rest generalizing kept with
  | nil =>
    cases h
    exact hkept
  | cons s rest ih =>
    obtain ⟨d, hd, hall⟩ := Traced.result_bind_eq_ok_iff.mp h
    have hs : s ∈ statements := hrest s List.mem_cons_self
    have hsink := evaluateStatement_sink hd
    obtain ⟨b, hb, hR⟩ := hstep hd
    have hnew : d.GoesBack R statements stems := by
      rcases input_eq_ok hb with ⟨root, hsource, hroot⟩ | ⟨found, hfound, hsource, rfl⟩
      · exact ⟨s, root, s.actions, b, .stem hs hsource, hsink, hroot, hR⟩
      · obtain ⟨t, root, actions, stem, ht, htsink, hroot, hfrom⟩ := hkept found hfound
        rw [htsink] at hsource
        exact ⟨s, root, actions ++ s.actions, stem, .sink hs hsource ht, hsink, hroot,
          htrans hfrom hR⟩
    have hnext : ∀ d' ∈ kept ++ [d], d'.GoesBack R statements stems :=
      List.forall_mem_append.mpr ⟨hkept, List.forall_mem_singleton.mpr hnew⟩
    exact ih (fun t ht => hrest t (List.mem_cons_of_mem s ht)) hnext hall

theorem hasLineage_of_evaluateFrom (hrest : ∀ s ∈ rest, s ∈ statements)
    (hkept : ∀ d ∈ kept, d.HasLineage statements stems)
    (h : (evaluateFrom transforms stems kept rest).result = .ok all) :
    ∀ d ∈ all, d.HasLineage statements stems :=
  goesBack_of_evaluateFrom evaluateStatement_descends .trans hrest hkept h

end Evaluation

lemma eq_of_sink_name {r : Recipe} {plan : Plan} (h : Plan.ofRecipe r = .ok plan) :
    ∀ s ∈ r.statements, ∀ t ∈ r.statements, s.sink.name = t.sink.name → s = t := by
  have hnodup : (sinkNames r.statements).Nodup :=
    (Plan.resolves_statements h).nodup_sinkNames List.nodup_nil
  exact fun s hs t ht => List.inj_on_of_nodup_map hnodup hs ht

lemma Evaluation.mem_saved {kept : List Deposit} {x : NamedBuffer} (h : x ∈ saved kept) :
    ∃ d ∈ kept, d.sink = ⟨x.name, true⟩ ∧ d.buffer = x.buffer := by
  obtain ⟨d, hd, rfl⟩ := List.mem_map.mp h
  obtain ⟨hmem, hsaved⟩ := List.mem_filter.mp hd
  refine ⟨d, hmem, ?_, rfl⟩
  rw [← hsaved]

/-- What an execution does whatever the transforms do. -/
structure Execution.IsChecked (r : Recipe) (plan : Plan) (stems : StemMap Buffer)
    (transforms : Transforms) : Prop where
  /-- Each saved buffer descends from the stem at the beginning of the one chain of its
  statement. -/
  saved : ∀ out, (execute plan stems transforms).result = .ok out → ∀ x ∈ out.saved,
    ∃ s ∈ r.statements, s.sink = ⟨x.name, true⟩ ∧ ∃ root actions b,
      (∀ root' actions', Lineage r.statements s root' actions' ↔
        root' = root ∧ actions' = actions) ∧
      stems.get? root = some b ∧ x.buffer.DescendsFrom b actions
  /-- One that fails stops where a stem is missing or at the first result that does not get past the
  checks. -/
  stops : ∀ e, (execute plan stems transforms).result = .error e →
    ∃ i, Execution.StopsAt plan stems transforms e i

/-- Every buffer that an execution saves goes back to a stem, and has been checked if there is an
action on the way; what does not get past the checks ends the execution. -/
theorem execute_checked (r : Recipe) (plan : Plan) (h : Plan.ofRecipe r = .ok plan)
    (stems : StemMap Buffer) (transforms : Transforms) :
    Execution.IsChecked r plan stems transforms := by
  refine ⟨fun out hout x hx => ?_, fun e he => Execution.exists_stopsAt h he⟩
  obtain ⟨kept, hkept, hsaved, -⟩ := Execution.exists_evaluate h hout
  rw [hsaved] at hx
  obtain ⟨d, hd, hsink, hbuffer⟩ := Evaluation.mem_saved hx
  obtain ⟨s, root, actions, b, hs, hdsink, hroot, hdescends⟩ :=
    Evaluation.hasLineage_of_evaluateFrom (fun _ hs => hs) (fun _ hd => by cases hd) hkept d hd
  rw [hsink] at hdsink
  rw [hbuffer] at hdescends
  refine ⟨s, hs.mem, hdsink.symm, root, actions, b, fun root' actions' => ⟨?_, ?_⟩, hroot,
    hdescends⟩
  · exact hs.unique (eq_of_sink_name h)
  · rintro ⟨rfl, rfl⟩
    exact hs

/-- A stem that is saved as it is, and a sink that hands on what its source has checked. -/
def handedOn : Recipe :=
  ⟨[⟨.stem .drums, [], ⟨"raw", true⟩⟩, ⟨.sink "raw", [.late], ⟨"beat", false⟩⟩,
    ⟨.sink "beat", [], ⟨"copy", true⟩⟩]⟩

def handedOnPlan : Plan :=
  ⟨[⟨0, .stem .drums, [], ⟨"raw", true⟩, 1⟩, ⟨1, .sink "raw" 0, [.late], ⟨"beat", false⟩, 1⟩,
    ⟨2, .sink "beat" 1, [], ⟨"copy", true⟩, 0⟩], { drums := some 1 }⟩

theorem execute_checked_handedOn :
    Plan.ofRecipe handedOn = .ok handedOnPlan ∧
    (execute handedOnPlan { drums := some ⟨[[0], [], [0]], 8000⟩ }
        fun _ b => .ok ⟨[[0, 0]], b.rate⟩).result.map (·.saved) =
      .ok [⟨"raw", ⟨[[0], [], [0]], 8000⟩⟩, ⟨"copy", ⟨[[0, 0]], 8000⟩⟩] ∧
    (execute handedOnPlan { drums := some ⟨[[0], [], [0]], 8000⟩ } fun _ b => .ok b).result =
      .error (.transformFailed 1 .late
        (.badLayout "3-channel audio (only mono/stereo supported)")) ∧
    ∀ (stems : StemMap Buffer) (transforms : Transforms),
      Execution.IsChecked handedOn handedOnPlan stems transforms :=
  ⟨by decide, by decide, by decide, execute_checked handedOn handedOnPlan (by decide)⟩

end Remix
