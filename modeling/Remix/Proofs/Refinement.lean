import Remix.Proofs.PendingReads

/-!
# Executing a plan is evaluating its recipe

An execution lets buffers go after their last reader, an evaluation keeps them all. This file shows
that nobody can tell the difference: on every recipe that has a plan, both make the same calls of
transforms in the same order and end in the same way. `Follows` relates a computation with the
store to one without, and `Tracks` is the invariant between two statements.
-/

namespace Remix

def Event.call? : Event → Option Call
  | .applying _ a b => some ⟨a, b⟩
  | _ => none

/-- The calls of transforms among some events. -/
def callsOf (events : List Event) : List Call := events.filterMap Event.call?

@[simp] lemma callsOf_append (events more : List Event) :
    callsOf (events ++ more) = callsOf events ++ callsOf more := List.filterMap_append

lemma callsOf_eq_nil {events : List Event} (h : ∀ e ∈ events, e.call? = none) :
    callsOf events = [] := List.filterMap_eq_nil_iff.mpr h

/-- Both fail with the same error, or both succeed with related values. -/
inductive Agree {ε α β : Type} (R : α → β → Prop) : Except ε α → Except ε β → Prop where
  | error (e : ε) : Agree R (.error e) (.error e)
  | ok {a : α} {b : β} (h : R a b) : Agree R (.ok a) (.ok b)

/-- Both make the same calls and agree in their results. -/
structure Follows {α β : Type} (R : α → β → Prop) (x : Traced Event RuntimeError α)
    (y : Traced Call RuntimeError β) : Prop where
  calls : callsOf x.events = y.events
  result : Agree R x.result y.result

namespace Follows

variable {α β γ δ : Type} {R : α → β → Prop} {S : γ → δ → Prop}
  {x : Traced Event RuntimeError α} {y : Traced Call RuntimeError β}

lemma pure {a : α} {b : β} (h : R a b) :
    Follows R (pure a : Traced Event RuntimeError α) (pure b) := ⟨rfl, .ok h⟩

lemma fail (e : RuntimeError) :
    Follows R (Traced.fail e : Traced Event RuntimeError α) (Traced.fail e) := ⟨rfl, .error e⟩

lemma ofExcept (r : Except RuntimeError α) :
    Follows Eq (Traced.ofExcept r : Traced Event RuntimeError α) (Traced.ofExcept r) := by
  refine ⟨rfl, ?_⟩
  cases r with
  | error e => exact .error e
  | ok a => exact .ok rfl

lemma bind {f : α → Traced Event RuntimeError γ} {g : β → Traced Call RuntimeError δ}
    (h : Follows R x y) (hf : ∀ a b, R a b → Follows S (f a) (g b)) :
    Follows S (x >>= f) (y >>= g) := by
  obtain ⟨events, result⟩ := x
  obtain ⟨calls, outcome⟩ := y
  obtain ⟨hcalls, hresult⟩ := h
  cases hresult with
  | error e => exact ⟨hcalls, .error e⟩
  | @ok a b hab =>
    obtain ⟨hcalls', hresult'⟩ := hf a b hab
    constructor
    · rw [Traced.events_bind_ok rfl, Traced.events_bind_ok rfl, callsOf_append, hcalls, hcalls']
    · rw [Traced.result_bind_ok rfl, Traced.result_bind_ok rfl]
      exact hresult'

/-- Events other than calls may be told on the way. -/
lemma tellAll {events : List Event} (he : ∀ e ∈ events, e.call? = none) (h : Follows R x y) :
    Follows R (Traced.tellAll events >>= fun _ => x) y := by
  constructor
  · rw [Traced.events_bind_ok (Traced.result_tellAll events), callsOf_append, h.calls]
    change callsOf events ++ y.events = y.events
    rw [callsOf_eq_nil he, List.nil_append]
  · rw [Traced.result_bind_ok (Traced.result_tellAll events)]
    exact h.result

lemma tell {event : Event} (he : event.call? = none) (h : Follows R x y) :
    Follows R (Traced.tell event >>= fun _ => x) y := by
  have hall : ∀ e ∈ [event], e.call? = none := by simpa using he
  exact tellAll hall h

end Follows

namespace Execution

lemma follows_applyActions (transforms : Transforms) (i : Nat) (rate : UInt32)
    (actions : List Action) (b : Buffer) :
    Follows Eq (applyActions transforms i rate actions b)
      (Evaluation.applyAll transforms i rate actions b) := by
  induction actions generalizing b with
  | nil => exact Follows.pure rfl
  | cons a rest ih =>
    rw [applyActions, Evaluation.applyAll, List.foldlM_cons, bind_assoc]
    have hcall : Follows Eq (Traced.tell (.applying i a b)) (Traced.tell (⟨a, b⟩ : Call)) :=
      ⟨rfl, .ok rfl⟩
    refine hcall.bind fun _ _ _ => (Follows.ofExcept _).bind ?_
    rintro result _ rfl
    exact ih result

/-- The invariant between two statements of an execution that applies `total` actions in all: it
has the statements `rest` before it, and an evaluation has kept the deposits so far. -/
structure Tracks (stems : StemMap Buffer) (total : Nat) (rest : List PlannedStatement)
    (p : Progress) (kept : List Deposit) : Prop where
  holds : p.store.Holds stems kept rest
  room : ∀ q ∈ rest, q.index < p.store.statements
  saved : p.saved = Evaluation.saved kept
  statementsRun : p.statementsRun = kept.length
  actionsApplied : p.actionsApplied + (rest.flatMap (·.actions)).length = total

variable {stems : StemMap Buffer} {total : Nat} {p : Progress} {kept : List Deposit}
  {q : PlannedStatement} {rest : List PlannedStatement}

lemma Progress.statements_keep (p : Progress) (q : PlannedStatement) (b : Buffer) :
    (p.keep q b).store.statements = p.store.statements := by
  unfold keep Store.insertSaved Store.insert
  split <;> dsimp only <;> split <;> rfl

lemma Progress.saved_keep (p : Progress) (q : PlannedStatement) (b : Buffer) :
    (p.keep q b).saved =
      if q.sink.saved then p.saved ++ [⟨q.sink.name, b⟩] else p.saved := by
  unfold keep
  split <;> rfl

lemma Progress.statementsRun_keep (p : Progress) (q : PlannedStatement) (b : Buffer) :
    (p.keep q b).statementsRun = p.statementsRun + 1 := by
  unfold keep
  split <;> rfl

lemma Progress.actionsApplied_keep (p : Progress) (q : PlannedStatement) (b : Buffer) :
    (p.keep q b).actionsApplied = p.actionsApplied + q.actions.length := by
  unfold keep
  split <;> rfl

lemma Tracks.keep (hp : Tracks stems total (q :: rest) p kept) {store : Store}
    (hstore : store.Holds stems kept rest) (hn : store.statements = p.store.statements)
    (hi : q.index = kept.length) (hr : q.readers = Plan.sinkReaders rest q.index) (b : Buffer) :
    Tracks stems total rest ({ p with store := store }.keep q b) (kept ++ [⟨q.sink, b⟩]) where
  holds := Progress.holds_keep hstore hi hr b
  room := by
    intro q' hq'
    rw [Progress.statements_keep]
    change q'.index < store.statements
    rw [hn]
    exact hp.room q' (List.mem_cons_of_mem q hq')
  saved := by
    rw [Progress.saved_keep]
    cases hs : q.sink.saved <;> simp [Evaluation.saved, hs, hp.saved]
  statementsRun := by
    rw [Progress.statementsRun_keep, List.length_append]
    exact congrArg (· + 1) hp.statementsRun
  actionsApplied := by
    have htotal := hp.actionsApplied
    rw [List.flatMap_cons, List.length_append] at htotal
    rw [Progress.actionsApplied_keep]
    dsimp only
    omega

lemma Tracks.follows_reading (hp : Tracks stems total (q :: rest) p kept) {reading : Reading}
    (transforms : Transforms) (hread : p.store.read q.origin = some reading)
    (hstore : reading.store.Holds stems kept rest)
    (hn : reading.store.statements = p.store.statements)
    (hi : q.index = kept.length) (hr : q.readers = Plan.sinkReaders rest q.index) :
    Follows (fun p' d => Tracks stems total rest p' (kept ++ [d]) ∧ d.sink = q.sink)
      (runStatement transforms p q)
      (do
        let b ← Evaluation.applyAll transforms kept.length reading.buffer.rate q.actions
          reading.buffer
        return ⟨q.sink, b⟩) := by
  have hroom : reading.store.hasRoom q.index q.readers := by
    have hlt := hp.room q List.mem_cons_self
    simp only [Store.hasRoom, hn, Bool.or_eq_true, decide_eq_true_eq]
    omega
  have hfreed : ∀ e ∈ reading.freed.toList.map Event.freed, e.call? = none := by
    intro e he
    obtain ⟨freed, -, rfl⟩ := List.mem_map.mp he
    rfl
  unfold runStatement
  rw [hread, ← hi]
  refine Follows.tellAll hfreed ((follows_applyActions _ _ _ _ _).bind ?_)
  rintro b _ rfl
  rw [if_pos hroom]
  have hkeep : Follows (fun p' d => Tracks stems total rest p' (kept ++ [d]) ∧ d.sink = q.sink)
      (pure ({ p with store := reading.store }.keep q b)) (pure ⟨q.sink, b⟩) :=
    Follows.pure ⟨hp.keep hstore hn hi hr b, rfl⟩
  by_cases hdead : q.isDead
  · rw [if_pos hdead]
    exact Follows.tell rfl hkeep
  · rw [if_neg hdead]
    exact hkeep

lemma Tracks.follows_statement (hp : Tracks stems total (q :: rest) p kept)
    (transforms : Transforms) {earlier : List Statement} {s : Statement}
    (hq : q.Records earlier s) (hkept : kept.map (·.sink) = earlier.map (·.sink))
    (hr : q.readers = Plan.sinkReaders rest q.index) :
    Follows (fun p' d => Tracks stems total rest p' (kept ++ [d]) ∧ d.sink = s.sink)
      (runStatement transforms p q) (Evaluation.evaluateStatement transforms stems kept s) := by
  have hi : q.index = kept.length := by
    rw [hq.index, length_eq_of_map_eq hkept]
  have horigin := hq.origin
  unfold Evaluation.evaluateStatement
  rw [← hq.sink, ← hq.actions]
  generalize ho : q.origin = origin at horigin
  generalize s.source = source at horigin
  cases horigin with
  | stem t =>
    cases hb : stems.get? t with
    | none =>
      have hread : p.store.read q.origin = none := by
        rw [ho, Store.read, Store.readStem, hp.holds.stem t, hb]
        rfl
      rw [runStatement, hread, missing, ho, hi, Evaluation.input_stem_of_none hb,
        Traced.ofExcept_error_bind]
      exact Follows.fail _
    | some b =>
      obtain ⟨reading, hread, rfl, hstore, hn⟩ := hp.holds.read_stem ho hb
      rw [Evaluation.input_stem_of_some hb, Traced.ofExcept_ok_bind]
      exact hp.follows_reading transforms hread hstore hn hi hr
  | sink hstem hj =>
    obtain ⟨d, hd, hinput⟩ := Evaluation.input_sink hkept (.sink hstem hj)
    obtain ⟨reading, hread, hbuffer, hstore, hn⟩ := hp.holds.read_sink ho hd
    rw [hinput, ← hbuffer, Traced.ofExcept_ok_bind]
    exact hp.follows_reading transforms hread hstore hn hi hr

/-- Running statements is evaluating those that they record. -/
theorem follows_runFrom (transforms : Transforms) {earlier statements : List Statement}
    (h : Resolves earlier statements rest) (hc : Plan.CountsAhead rest)
    (hp : Tracks stems total rest p kept) (hkept : kept.map (·.sink) = earlier.map (·.sink)) :
    Follows (fun p' kept' => Tracks stems total [] p' kept' ∧
        kept'.map (·.sink) = (earlier ++ statements).map (·.sink))
      (runFrom transforms p rest)
      (Evaluation.evaluateFrom transforms stems kept statements) := by
  -- By induction on what the plan records; `Tracks` is carried from one statement to the next.
  induction h generalizing p kept with
  | nil => exact Follows.pure ⟨hp, by simpa using hkept⟩
  | @cons earlier s statements q rest hq _ _ ih =>
    rw [runFrom, Evaluation.evaluateFrom]
    refine (hp.follows_statement transforms hq hkept hc.head).bind ?_
    rintro p' d ⟨hp', hd⟩
    have hkept' : (kept ++ [d]).map (·.sink) = (earlier ++ [s]).map (·.sink) := by
      rw [List.map_append, List.map_append, hkept]
      simp [hd]
    have hrest := ih hc.tail hp' hkept'
    rwa [List.append_assoc] at hrest

lemma tracks_start {r : Recipe} {plan : Plan} (h : Plan.ofRecipe r = .ok plan)
    (stems : StemMap Buffer) :
    Tracks stems plan.actionCount plan.statements
      (.start stems plan.stemReaders plan.statements.length) [] where
  holds := by
    rw [Plan.stemReaders_eq h]
    exact Store.holds_seed stems plan.statements _
  room := by
    intro q hq
    obtain ⟨i, hi⟩ := List.mem_iff_getElem?.mp hq
    have hindex := (Plan.resolves_statements h).index_eq hi
    obtain ⟨hlt, -⟩ := List.getElem?_eq_some_iff.mp hi
    rw [hindex, List.length_nil, Nat.zero_add]
    exact hlt
  saved := rfl
  statementsRun := rfl
  actionsApplied := Nat.zero_add _

theorem follows_execute {r : Recipe} {plan : Plan} (h : Plan.ofRecipe r = .ok plan)
    (stems : StemMap Buffer) (transforms : Transforms) :
    Follows (fun out kept => out.saved = Evaluation.saved kept ∧
        out.stats.statementsRun = r.statements.length ∧
        out.stats.actionsApplied = plan.actionCount)
      (execute plan stems transforms) (r.evaluate stems transforms) := by
  have hunread : ∀ e ∈ (unread stems plan.stemReaders).map Event.stemUnread, e.call? = none := by
    intro e he
    obtain ⟨s, -, rfl⟩ := List.mem_map.mp he
    rfl
  have hrun := follows_runFrom transforms (Plan.resolves_statements h) (Plan.countsAhead h)
    (tracks_start h stems) rfl
  unfold execute
  rw [← bind_pure (r.evaluate stems transforms)]
  refine Follows.tell rfl (Follows.tellAll hunread (hrun.bind ?_))
  rintro p kept ⟨hp, hkept⟩
  have hlen := length_eq_of_map_eq hkept
  rw [List.nil_append] at hlen
  exact Follows.tell rfl (Follows.pure ⟨hp.saved, hp.statementsRun.trans hlen, hp.actionsApplied⟩)

variable {r : Recipe} {plan : Plan} {transforms : Transforms} {out : Output}

lemma exists_evaluate (h : Plan.ofRecipe r = .ok plan)
    (hout : (execute plan stems transforms).result = .ok out) :
    ∃ kept, (r.evaluate stems transforms).result = .ok kept ∧
      out.saved = Evaluation.saved kept ∧ out.stats.actionsApplied = plan.actionCount := by
  have hresult := (follows_execute h stems transforms).result
  rw [hout] at hresult
  generalize (r.evaluate stems transforms).result = outcome at hresult ⊢
  cases hresult with
  | ok hkept => exact ⟨_, rfl, hkept.1, hkept.2.2⟩

lemma exists_execute (h : Plan.ofRecipe r = .ok plan)
    (hkept : (r.evaluate stems transforms).result = .ok kept) :
    ∃ out, (execute plan stems transforms).result = .ok out ∧
      out.saved = Evaluation.saved kept := by
  have hresult := (follows_execute h stems transforms).result
  rw [hkept] at hresult
  generalize (execute plan stems transforms).result = result at hresult ⊢
  cases hresult with
  | ok hout => exact ⟨_, rfl, hout.1⟩

end Execution

/-- In a recipe that has a plan no sink is ever missing. -/
lemma evaluate_ne_missingSink {r : Recipe} {plan : Plan} (h : Plan.ofRecipe r = .ok plan)
    (stems : StemMap Buffer) (transforms : Transforms) (name : String) (i : Nat) :
    (r.evaluate stems transforms).result ≠ .error (.missingSink name i) := by
  intro he
  obtain ⟨k, s, -, hs⟩ := Evaluation.evaluateFrom_error (Plan.resolves_statements h) rfl he
  rcases hs with ⟨t, -, -, ht⟩ | ⟨a, -, rate, b, ha⟩
  · cases ht
  · rcases Evaluation.applyAction_error ha with ⟨cause, -, hc⟩ | ⟨result, -, hf⟩
    · cases hc
    · unfold Execution.faultAfter at hf
      split at hf
      · cases hf
      · split at hf
        · cases hf
        · split at hf <;> cases hf

/-- The execution of a plan, which lets buffers go, does what the evaluation of its recipe does,
which keeps them: the same calls of transforms, then the same saved buffers or the same error. -/
theorem execute_eq_evaluate (r : Recipe) (plan : Plan) (h : Plan.ofRecipe r = .ok plan)
    (stems : StemMap Buffer) (transforms : Transforms) :
    callsOf (execute plan stems transforms).events = (r.evaluate stems transforms).events ∧
    (execute plan stems transforms).result.map
        (fun out => (out.saved, out.stats.statementsRun, out.stats.actionsApplied)) =
      (r.evaluate stems transforms).result.map
        (fun kept => (Evaluation.saved kept, r.statements.length, plan.actionCount)) ∧
    ∀ name i, (execute plan stems transforms).result ≠ .error (.missingSink name i) := by
  obtain ⟨hcalls, hresult⟩ := Execution.follows_execute h stems transforms
  have hsink := evaluate_ne_missingSink h stems transforms
  refine ⟨hcalls, ?_⟩
  generalize (execute plan stems transforms).result = result at hresult ⊢
  generalize (r.evaluate stems transforms).result = outcome at hresult hsink ⊢
  cases hresult with
  | error e =>
    refine ⟨rfl, fun name i he => hsink name i ?_⟩
    cases he
    rfl
  | ok hout =>
    obtain ⟨hsaved, hrun, happlied⟩ := hout
    simp [Except.map, hsaved, hrun, happlied]

/-- Two statements that read one sink. -/
def sharedSink : Recipe :=
  ⟨[⟨.stem .drums, [.flat], ⟨"beat", false⟩⟩, ⟨.sink "beat", [], ⟨"dry", true⟩⟩,
    ⟨.sink "beat", [.late], ⟨"wet", true⟩⟩]⟩

def sharedSinkPlan : Plan :=
  ⟨[⟨0, .stem .drums, [.flat], ⟨"beat", false⟩, 2⟩, ⟨1, .sink "beat" 0, [], ⟨"dry", true⟩, 0⟩,
    ⟨2, .sink "beat" 0, [.late], ⟨"wet", true⟩, 0⟩], { drums := some 1 }⟩

theorem execute_eq_evaluate_sharedSink :
    let stems : StemMap Buffer := { drums := some ⟨[[0, 0]], 44100⟩ }
    let transforms : Transforms := fun _ b => .ok b
    Plan.ofRecipe sharedSink = .ok sharedSinkPlan ∧
    (execute sharedSinkPlan stems transforms).result.map (fun out => out.saved.map (·.name)) =
      .ok ["dry", "wet"] ∧
    callsOf (execute sharedSinkPlan stems transforms).events =
      (sharedSink.evaluate stems transforms).events ∧
    (execute sharedSinkPlan stems transforms).result.map
        (fun out => (out.saved, out.stats.statementsRun, out.stats.actionsApplied)) =
      (sharedSink.evaluate stems transforms).result.map
        (fun kept => (Evaluation.saved kept, 3, 2)) ∧
    ∀ name i, (execute sharedSinkPlan stems transforms).result ≠ .error (.missingSink name i) :=
  ⟨by decide, by decide, execute_eq_evaluate sharedSink sharedSinkPlan (by decide) _ _⟩

end Remix
