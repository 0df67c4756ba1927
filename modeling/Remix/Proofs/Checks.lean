import Remix.Proofs.Readers
import Remix.Proofs.Refinement

/-!
# What the checks let through

The result of every action is checked: it keeps the sample rate of the statement, it has one or two
channels of equal length, and its samples are finite. This file says what the checks mean for a
buffer, and where an execution stops that does not get past them: at the last action that was
handed to the transforms.
-/

namespace Remix

namespace Buffer

/-- One or two channels of equal length. -/
structure IsRegular (b : Buffer) : Prop where
  count : b.channels.length = 1 ∨ b.channels.length = 2
  lengths : ∀ c ∈ b.channels, c.length = b.length

/-- A regular buffer without infinite samples and without samples that are no numbers. -/
structure IsSound (b : Buffer) : Prop extends b.IsRegular where
  finite : ∀ c ∈ b.channels, ∀ x ∈ c, x.isFinite

variable {b : Buffer}

lemma layout?_isSome_iff :
    b.layout?.isSome ↔ b.channels.length = 1 ∨ b.channels.length = 2 := by
  rw [Option.isSome_iff_exists]
  unfold layout?
  constructor
  · rintro ⟨l, hl⟩
    rw [Layout.ofCount?_eq_some_iff.mp hl]
    cases l with
    | mono => exact .inl rfl
    | stereo => exact .inr rfl
  · rintro (h | h)
    · exact ⟨.mono, Layout.ofCount?_eq_some_iff.mpr h⟩
    · exact ⟨.stereo, Layout.ofCount?_eq_some_iff.mpr h⟩

lemma layoutFault?_eq_none_iff : b.layoutFault? = none ↔ b.IsRegular := by
  have hlayout := layout?_isSome_iff (b := b)
  unfold layoutFault?
  cases hcount : b.layout? with
  | none =>
    rw [hcount] at hlayout
    simp only [Option.isNone_none, if_true, reduceCtorEq, false_iff]
    exact fun h => absurd (hlayout.mpr h.count) Bool.false_ne_true
  | some l =>
    rw [hcount] at hlayout
    have hcounted := hlayout.mp rfl
    rw [if_neg (by simp)]
    constructor
    · intro h
      refine ⟨hcounted, ?_⟩
      by_contra hne
      rw [if_neg (by simpa using hne)] at h
      cases h
    · intro h
      rw [if_pos (by simpa using h.lengths)]

lemma isFinite_iff : b.isFinite ↔ ∀ c ∈ b.channels, ∀ x ∈ c, x.isFinite := by
  simp [isFinite]

lemma isSound_iff : b.IsSound ↔ b.layoutFault? = none ∧ b.isFinite := by
  rw [layoutFault?_eq_none_iff, isFinite_iff]
  exact ⟨fun h => ⟨h.toIsRegular, h.finite⟩, fun h => ⟨h.1, h.2⟩⟩

end Buffer

/-- Why statement `i`, whose track has the sample rate `rate`, stops at an action that is applied to
`b`. The first check that fails gives the error. -/
inductive Rejected (transforms : Transforms) (i : Nat) (rate : UInt32) (a : Action) (b : Buffer) :
    RuntimeError → Prop where
  | failed {cause : TransformError} (h : transforms a b = .error cause) :
      Rejected transforms i rate a b (.transformFailed i a cause)
  | rate {c : Buffer} (h : transforms a b = .ok c) (hrate : c.rate ≠ rate) :
      Rejected transforms i rate a b
        (.incompatibleRate s!"statement {i} after '{a.keyword}'" rate c.rate)
  | layout {c : Buffer} {fault : LayoutFault} (h : transforms a b = .ok c) (hrate : c.rate = rate)
      (hregular : ¬ c.IsRegular) (hfault : c.layoutFault? = some fault) :
      Rejected transforms i rate a b (.transformFailed i a (.badLayout fault.message))
  | samples {c : Buffer} (h : transforms a b = .ok c) (hrate : c.rate = rate)
      (hregular : c.IsRegular) (hsound : ¬ c.IsSound) :
      Rejected transforms i rate a b (.transformFailed i a .notFinite)

namespace Execution

variable {transforms : Transforms} {i : Nat} {rate : UInt32} {a : Action} {b : Buffer}
  {e : RuntimeError}

lemma rejected_of_applyAction (h : applyAction transforms i rate a b = .error e) :
    Rejected transforms i rate a b e := by
  rcases Evaluation.applyAction_error h with ⟨cause, ht, rfl⟩ | ⟨c, ht, hfault⟩
  · exact .failed ht
  · unfold faultAfter at hfault
    by_cases hrate : c.rate = rate
    · rw [if_neg (not_not.mpr hrate)] at hfault
      cases hlayout : c.layoutFault? with
      | some fault =>
        rw [hlayout] at hfault
        cases hfault
        refine .layout ht hrate (fun hregular => ?_) hlayout
        rw [Buffer.layoutFault?_eq_none_iff.mpr hregular] at hlayout
        cases hlayout
      | none =>
        rw [hlayout] at hfault
        dsimp only at hfault
        cases hfinite : c.isFinite with
        | true =>
          rw [hfinite] at hfault
          cases hfault
        | false =>
          rw [hfinite] at hfault
          cases hfault
          refine .samples ht hrate (Buffer.layoutFault?_eq_none_iff.mp hlayout) fun hsound => ?_
          rw [(Buffer.isSound_iff.mp hsound).2] at hfinite
          cases hfinite
    · rw [if_pos hrate] at hfault
      cases hfault
      exact .rate ht hrate

/-- The actions of a statement stop at the last of their calls. -/
lemma applyActions_error {actions : List Action}
    (h : (applyActions transforms i rate actions b).result = .error e) :
    ∃ a ∈ actions, ∃ c,
      (applyActions transforms i rate actions b).events.getLast? = some (.applying i a c) ∧
      Rejected transforms i rate a c e := by
  induction actions generalizing b with
  | nil => cases h
  | cons a rest ih =>
    rw [applyActions, Traced.result_bind_ok (Traced.result_tell _)] at h
    rw [applyActions, Traced.events_bind_ok (Traced.result_tell _)]
    cases hc : applyAction transforms i rate a b with
    | error e' =>
      rw [hc, Traced.ofExcept_error_bind] at h
      cases h
      refine ⟨a, List.mem_cons_self, b, ?_, rejected_of_applyAction hc⟩
      rw [Traced.ofExcept_error_bind]
      rfl
    | ok c =>
      rw [hc, Traced.ofExcept_ok_bind] at h
      obtain ⟨a', ha', c', hlast, hrejected⟩ := ih h
      refine ⟨a', List.mem_cons_of_mem a ha', c', ?_, hrejected⟩
      rw [Traced.ofExcept_ok_bind, List.getLast?_append, hlast]
      rfl

variable {p : Progress} {q : PlannedStatement} {rest : List PlannedStatement}

/-- A statement stops where its track is missing, at an action, or for want of room. -/
lemma runStatement_error (h : (runStatement transforms p q).result = .error e) :
    (p.store.read q.origin = none ∧ e = missing q) ∨
      ∃ reading, p.store.read q.origin = some reading ∧
        ((∃ a ∈ q.actions, ∃ c,
            (runStatement transforms p q).events.getLast? = some (.applying q.index a c) ∧
            Rejected transforms q.index reading.buffer.rate a c e) ∨
          e = .noRoom q.index) := by
  unfold runStatement at h ⊢
  cases hread : p.store.read q.origin with
  | none =>
    rw [hread] at h
    cases h
    exact .inl ⟨rfl, rfl⟩
  | some reading =>
    rw [hread] at h
    dsimp only at h ⊢
    rw [Traced.result_bind_ok (Traced.result_tellAll _)] at h
    refine .inr ⟨reading, rfl, ?_⟩
    cases hb : (applyActions transforms q.index reading.buffer.rate q.actions
        reading.buffer).result with
    | error e' =>
      rw [Traced.result_bind_error hb] at h
      cases h
      obtain ⟨a, ha, c, hlast, hrejected⟩ := applyActions_error hb
      refine .inl ⟨a, ha, c, ?_, hrejected⟩
      rw [Traced.events_bind_ok (Traced.result_tellAll _), Traced.events_bind_error hb,
        List.getLast?_append, hlast]
      rfl
    | ok b =>
      rw [Traced.result_bind_ok hb] at h
      split at h
      · split at h <;> cases h
      · cases h
        exact .inr rfl

/-- A run that fails does so in one statement, after those before it have succeeded. -/
lemma runFrom_error (h : (runFrom transforms p rest).result = .error e) :
    ∃ k q p', rest[k]? = some q ∧ (runFrom transforms p (rest.take k)).result = .ok p' ∧
      (runStatement transforms p' q).result = .error e ∧
      ∃ earlier, (runFrom transforms p rest).events =
        earlier ++ (runStatement transforms p' q).events := by
  induction rest generalizing p with
  | nil => cases h
  | cons q rest ih =>
    rw [runFrom] at h ⊢
    cases hq : (runStatement transforms p q).result with
    | error e' =>
      rw [Traced.result_bind_error hq] at h
      cases h
      exact ⟨0, q, p, rfl, rfl, hq, [], Traced.events_bind_error hq _⟩
    | ok next =>
      rw [Traced.result_bind_ok hq] at h
      obtain ⟨k, q', p', hk, hrun, hfails, earlier, hevents⟩ := ih h
      refine ⟨k + 1, q', p', hk, ?_, hfails, (runStatement transforms p q).events ++ earlier, ?_⟩
      · rw [List.take_succ_cons, runFrom, Traced.result_bind_ok hq, hrun]
      · rw [Traced.events_bind_ok hq, hevents, List.append_assoc]

end Execution

variable {r : Recipe} {plan : Plan} {stems : StemMap Buffer} {transforms : Transforms}
  {e : RuntimeError}

/-- An evaluation fails for a stem that is not there, or at a check. -/
lemma evaluate_error (h : Plan.ofRecipe r = .ok plan)
    (he : (r.evaluate stems transforms).result = .error e) :
    (∃ t i, stems.get? t = none ∧ e = .missingStem t i) ∨
      ∃ i rate a b, Rejected transforms i rate a b e := by
  obtain ⟨k, s, -, hs⟩ := Evaluation.evaluateFrom_error (Plan.resolves_statements h) rfl he
  rcases hs with ⟨t, -, ht, rfl⟩ | ⟨a, -, rate, b, ha⟩
  · exact .inl ⟨t, _, ht, rfl⟩
  · exact .inr ⟨_, rate, a, b, Execution.rejected_of_applyAction ha⟩

namespace Execution

lemma evaluate_eq_error (h : Plan.ofRecipe r = .ok plan)
    (he : (execute plan stems transforms).result = .error e) :
    (r.evaluate stems transforms).result = .error e := by
  have hresult := (follows_execute h stems transforms).result
  rw [he] at hresult
  generalize (r.evaluate stems transforms).result = outcome at hresult ⊢
  cases hresult with
  | error e => rfl

/-- The execution of a plan stops with the error `e` in statement `i`, after those before it have
succeeded: it does not find its track, or the last call of all was handed one of its actions, whose
result does not get past the checks. -/
def StopsAt (plan : Plan) (stems : StemMap Buffer) (transforms : Transforms) (e : RuntimeError)
    (i : Nat) : Prop :=
  ∃ q p, plan.statements[i]? = some q ∧
    (runFrom transforms (.start stems plan.stemReaders plan.statements.length)
      (plan.statements.take i)).result = .ok p ∧
    ((p.store.read q.origin = none ∧ e = missing q) ∨
      ∃ reading, p.store.read q.origin = some reading ∧ ∃ a ∈ q.actions, ∃ c,
        (execute plan stems transforms).events.getLast? = some (.applying i a c) ∧
        Rejected transforms i reading.buffer.rate a c e)

theorem exists_stopsAt (h : Plan.ofRecipe r = .ok plan)
    (he : (execute plan stems transforms).result = .error e) :
    ∃ i, StopsAt plan stems transforms e i := by
  have hevaluate := evaluate_eq_error h he
  unfold StopsAt
  unfold execute at he ⊢
  rw [Traced.result_bind_ok (Traced.result_tell _),
    Traced.result_bind_ok (Traced.result_tellAll _)] at he
  cases hrun : (runFrom transforms (.start stems plan.stemReaders plan.statements.length)
      plan.statements).result with
  | ok p =>
    rw [Traced.result_bind_ok hrun] at he
    cases he
  | error e' =>
    rw [Traced.result_bind_error hrun] at he
    cases he
    obtain ⟨i, q, p, hq, hbefore, hfails, earlier, hevents⟩ := runFrom_error hrun
    refine ⟨i, q, p, hq, hbefore, ?_⟩
    rcases runStatement_error hfails with hmissing | ⟨reading, hread, hstop⟩
    · exact .inl hmissing
    · refine .inr ⟨reading, hread, ?_⟩
      rw [Plan.index_eq h hq] at hstop
      rcases hstop with ⟨a, ha, c, hlast, hrejected⟩ | rfl
      · refine ⟨a, ha, c, ?_, hrejected⟩
        rw [Traced.events_bind_ok (Traced.result_tell _),
          Traced.events_bind_ok (Traced.result_tellAll _), Traced.events_bind_error hrun, hevents,
          List.getLast?_append, List.getLast?_append, List.getLast?_append, hlast]
        rfl
      · -- There is room for every statement of a plan.
        rcases evaluate_error h hevaluate with ⟨_, _, -, hne⟩ | ⟨_, _, _, _, hrejected⟩
        · cases hne
        · cases hrejected

end Execution

end Remix
