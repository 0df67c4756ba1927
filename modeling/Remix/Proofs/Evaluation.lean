import Mathlib.Tactic.Common
import Remix.Execution.Run
import Remix.Proofs.Naming

/-!
# Evaluating a recipe

The meaning of a recipe, without plans and stores: every stem and every sink is kept for good. A
statement starts from its stem or from the sink of that name, and its actions are folded over the
buffer from left to right, with the same checks on each result as in an execution. What is told on
the way are the calls of the transforms.
-/

namespace Remix

/-- A call of the transform of an action. -/
structure Call where
  action : Action
  input : Buffer

/-- The result of a statement with the sink that it goes to. -/
structure Deposit where
  sink : Sink
  buffer : Buffer

namespace Execution

variable {transforms : Transforms} {a : Action} {b : Buffer}

lemma applyAction_of_error {cause : TransformError} (h : transforms a b = .error cause) (i : Nat)
    (rate : UInt32) : applyAction transforms i rate a b = .error (.transformFailed i a cause) := by
  rw [applyAction, h]
  rfl

lemma applyAction_of_ok {result : Buffer} (h : transforms a b = .ok result) (i : Nat)
    (rate : UInt32) : applyAction transforms i rate a b =
      (faultAfter i a rate result).elim (.ok result) .error := by
  cases hf : faultAfter i a rate result with
  | none => simp [applyAction, h, hf, Except.mapError, bind, Except.bind]
  | some e => simp [applyAction, h, hf, Except.mapError, bind, Except.bind]

lemma faultAfter_eq_none_iff {i : Nat} {rate : UInt32} :
    faultAfter i a rate b = none ↔ b.rate = rate ∧ b.layoutFault? = none ∧ b.isFinite := by
  unfold faultAfter
  by_cases hrate : b.rate = rate
  · cases b.layoutFault? with
    | none => simp [hrate]
    | some fault => simp [hrate]
  · simp [hrate]

end Execution

namespace Evaluation

def saved (kept : List Deposit) : List NamedBuffer :=
  (kept.filter (·.sink.saved)).map fun d => ⟨d.sink.name, d.buffer⟩

/-- The buffer that statement `i` starts from. -/
def input (stems : StemMap Buffer) (kept : List Deposit) (i : Nat) :
    Source → Except RuntimeError Buffer
  | .stem s =>
    match stems.get? s with
    | some b => .ok b
    | none => .error (.missingStem s i)
  | .sink name =>
    match kept.find? (·.sink.name = name) with
    | some d => .ok d.buffer
    | none => .error (.missingSink name i)

def applyAll (transforms : Transforms) (i : Nat) (rate : UInt32) (actions : List Action)
    (b : Buffer) : Traced Call RuntimeError Buffer :=
  actions.foldlM (fun b a => do
    Traced.tell ⟨a, b⟩
    Traced.ofExcept (Execution.applyAction transforms i rate a b)) b

/-- Evaluates the statement after those whose deposits are kept. -/
def evaluateStatement (transforms : Transforms) (stems : StemMap Buffer) (kept : List Deposit)
    (s : Statement) : Traced Call RuntimeError Deposit := do
  let b ← Traced.ofExcept (input stems kept kept.length s.source)
  let result ← applyAll transforms kept.length b.rate s.actions b
  return ⟨s.sink, result⟩

def evaluateFrom (transforms : Transforms) (stems : StemMap Buffer) (kept : List Deposit) :
    List Statement → Traced Call RuntimeError (List Deposit)
  | [] => pure kept
  | s :: rest => do
    let d ← evaluateStatement transforms stems kept s
    evaluateFrom transforms stems (kept ++ [d]) rest

lemma input_stem_of_some {stems : StemMap Buffer} {s : Stem} {b : Buffer}
    (h : stems.get? s = some b) (kept : List Deposit) (i : Nat) :
    input stems kept i (.stem s) = .ok b := by
  rw [input, h]

lemma input_stem_of_none {stems : StemMap Buffer} {s : Stem} (h : stems.get? s = none)
    (kept : List Deposit) (i : Nat) :
    input stems kept i (.stem s) = .error (.missingStem s i) := by
  rw [input, h]

/-- A name that refers to statement `j` finds the deposit of that statement. -/
lemma input_sink {kept : List Deposit} {earlier : List Statement} {name : String} {j : Nat}
    (hkept : kept.map (·.sink) = earlier.map (·.sink))
    (h : RefersTo earlier (.sink name) (.sink name j)) :
    ∃ d, kept[j]? = some d ∧
      ∀ stems i, input stems kept i (.sink name) = .ok d.buffer := by
  have hnames : kept.map (·.sink.name) = sinkNames earlier := by
    have h' := congrArg (List.map Sink.name) hkept
    rwa [List.map_map, List.map_map] at h'
  have hname : ∀ k, kept[k]?.map (·.sink.name) = some name ↔ k = j := by
    intro k
    cases h with
    | sink _ hj => rw [← hj k, ← hnames, List.getElem?_map]
  obtain ⟨d, hd, hdname⟩ := Option.map_eq_some_iff.mp ((hname j).mpr rfl)
  refine ⟨d, hd, fun stems i => ?_⟩
  obtain ⟨hlt, hget⟩ := List.getElem?_eq_some_iff.mp hd
  -- The first deposit of the name is that of `j`, since there is no other.
  have hfind : kept.find? (·.sink.name = name) = some d := by
    rw [List.find?_eq_some_iff_getElem]
    refine ⟨by simpa using hdname, j, hlt, hget, ?_⟩
    intro k hk
    have hne : kept[k].sink.name ≠ name := by
      intro he
      have hkj := (hname k).mp (by rw [List.getElem?_eq_getElem (by omega), Option.map_some, he])
      omega
    simpa using hne
  rw [input, hfind]

lemma applyAction_error {transforms : Transforms} {i : Nat} {rate : UInt32} {a : Action}
    {b : Buffer} {e : RuntimeError}
    (h : Execution.applyAction transforms i rate a b = .error e) :
    (∃ cause, transforms a b = .error cause ∧ e = .transformFailed i a cause) ∨
      ∃ result, transforms a b = .ok result ∧ Execution.faultAfter i a rate result = some e := by
  cases ht : transforms a b with
  | error cause =>
    rw [Execution.applyAction_of_error ht] at h
    cases h
    exact .inl ⟨cause, rfl, rfl⟩
  | ok result =>
    rw [Execution.applyAction_of_ok ht] at h
    cases hf : Execution.faultAfter i a rate result with
    | none =>
      rw [hf] at h
      cases h
    | some fault =>
      rw [hf] at h
      cases h
      exact .inr ⟨result, rfl, hf⟩

lemma applyAll_error {transforms : Transforms} {i : Nat} {rate : UInt32} {actions : List Action}
    {b : Buffer} {e : RuntimeError} (h : (applyAll transforms i rate actions b).result = .error e) :
    ∃ a ∈ actions, ∃ c, Execution.applyAction transforms i rate a c = .error e := by
  induction actions generalizing b with
  | nil => cases h
  | cons a rest ih =>
    rw [applyAll, List.foldlM_cons, bind_assoc,
      Traced.result_bind_ok (Traced.result_tell (⟨a, b⟩ : Call))] at h
    cases hb : Execution.applyAction transforms i rate a b with
    | error e' =>
      rw [hb, Traced.ofExcept_error_bind] at h
      cases h
      exact ⟨a, List.mem_cons_self, b, hb⟩
    | ok c =>
      rw [hb, Traced.ofExcept_ok_bind] at h
      obtain ⟨a', ha', c', hc'⟩ := ih h
      exact ⟨a', List.mem_cons_of_mem a ha', c', hc'⟩

lemma evaluateStatement_error {transforms : Transforms} {stems : StemMap Buffer}
    {kept : List Deposit} {earlier : List Statement} {s : Statement} {origin : Origin}
    {e : RuntimeError} (hkept : kept.map (·.sink) = earlier.map (·.sink))
    (hs : RefersTo earlier s.source origin)
    (h : (evaluateStatement transforms stems kept s).result = .error e) :
    (∃ t, s.source = .stem t ∧ stems.get? t = none ∧ e = .missingStem t kept.length) ∨
      ∃ a ∈ s.actions, ∃ rate c,
        Execution.applyAction transforms kept.length rate a c = .error e := by
  have hfold : ∀ b, input stems kept kept.length s.source = .ok b →
      (applyAll transforms kept.length b.rate s.actions b).result = .error e := by
    intro b hb
    rw [evaluateStatement, hb, Traced.ofExcept_ok_bind, Traced.result_bind] at h
    cases hr : (applyAll transforms kept.length b.rate s.actions b).result with
    | error e' =>
      rw [hr] at h
      cases h
      rfl
    | ok b' =>
      rw [hr] at h
      cases h
  have hactions : ∀ b, input stems kept kept.length s.source = .ok b → ∃ a ∈ s.actions, ∃ rate c,
      Execution.applyAction transforms kept.length rate a c = .error e := by
    intro b hb
    obtain ⟨a, ha, c, hc⟩ := applyAll_error (hfold b hb)
    exact ⟨a, ha, b.rate, c, hc⟩
  generalize hsource : s.source = source at hs
  cases hs with
  | stem t =>
    cases hb : stems.get? t with
    | none =>
      rw [evaluateStatement, hsource, input_stem_of_none hb, Traced.ofExcept_error_bind] at h
      cases h
      exact .inl ⟨t, rfl, hb, rfl⟩
    | some b => exact .inr (hactions b (by rw [hsource, input_stem_of_some hb]))
  | sink hstem hj =>
    obtain ⟨d, -, hinput⟩ := input_sink hkept (.sink hstem hj)
    exact .inr (hactions d.buffer (by rw [hsource, hinput]))

/-- What a statement that succeeds has started from, and what its actions have made of it. -/
lemma evaluateStatement_eq_ok {transforms : Transforms} {stems : StemMap Buffer}
    {kept : List Deposit} {s : Statement} {d : Deposit}
    (h : (evaluateStatement transforms stems kept s).result = .ok d) :
    ∃ b, input stems kept kept.length s.source = .ok b ∧
      (applyAll transforms kept.length b.rate s.actions b).result = .ok d.buffer ∧
      d.sink = s.sink := by
  obtain ⟨b, hb, hrest⟩ := Traced.result_bind_eq_ok_iff.mp h
  obtain ⟨result, hresult, hd⟩ := Traced.result_bind_eq_ok_iff.mp hrest
  cases hd
  exact ⟨b, hb, hresult, rfl⟩

lemma evaluateStatement_sink {transforms : Transforms} {stems : StemMap Buffer}
    {kept : List Deposit} {s : Statement} {d : Deposit}
    (h : (evaluateStatement transforms stems kept s).result = .ok d) : d.sink = s.sink := by
  obtain ⟨b, -, -, hsink⟩ := evaluateStatement_eq_ok h
  exact hsink

/-- The statement at which an evaluation fails, and why. -/
theorem evaluateFrom_error {transforms : Transforms} {stems : StemMap Buffer}
    {earlier rest : List Statement} {planned : List PlannedStatement} {kept : List Deposit}
    {e : RuntimeError} (hr : Resolves earlier rest planned)
    (hkept : kept.map (·.sink) = earlier.map (·.sink))
    (h : (evaluateFrom transforms stems kept rest).result = .error e) :
    ∃ i s, rest[i]? = some s ∧
      ((∃ t, s.source = .stem t ∧ stems.get? t = none ∧ e = .missingStem t (kept.length + i)) ∨
        ∃ a ∈ s.actions, ∃ rate c,
          Execution.applyAction transforms (kept.length + i) rate a c = .error e) := by
  induction hr generalizing kept with
  | nil => cases h
  | @cons earlier s rest q planned hq _ _ ih =>
    rw [evaluateFrom] at h
    cases hs : (evaluateStatement transforms stems kept s).result with
    | error e' =>
      rw [Traced.result_bind_error hs] at h
      cases h
      exact ⟨0, s, rfl, evaluateStatement_error hkept hq.origin hs⟩
    | ok d =>
      rw [Traced.result_bind_ok hs] at h
      have hd := evaluateStatement_sink hs
      obtain ⟨i, t, hi, ht⟩ := ih (by simp [hkept, hd]) h
      rw [List.length_append, List.length_singleton, Nat.add_assoc, Nat.add_comm 1 i] at ht
      exact ⟨i + 1, t, hi, ht⟩

variable {transforms : Transforms} {stems : StemMap Buffer} {kept kept' : List Deposit}

lemma result_applyAll_cons (transforms : Transforms) (i : Nat) (rate : UInt32) (a : Action)
    (actions : List Action) (b : Buffer) :
    (applyAll transforms i rate (a :: actions) b).result =
      Execution.applyAction transforms i rate a b >>= fun c =>
        (applyAll transforms i rate actions c).result := by
  rw [applyAll, List.foldlM_cons, bind_assoc,
    Traced.result_bind_ok (Traced.result_tell (⟨a, b⟩ : Call)), Traced.result_bind]
  rfl

lemma result_applyAll_append (transforms : Transforms) (i : Nat) (rate : UInt32)
    (first second : List Action) (b : Buffer) :
    (applyAll transforms i rate (first ++ second) b).result =
      (applyAll transforms i rate first b).result >>= fun c =>
        (applyAll transforms i rate second c).result := by
  rw [applyAll, List.foldlM_append, Traced.result_bind]
  rfl

lemma applyAction_eq_ok_iff {i : Nat} {rate : UInt32} {a : Action} {b c : Buffer} :
    Execution.applyAction transforms i rate a b = .ok c ↔
      transforms a b = .ok c ∧ c.rate = rate ∧ c.layoutFault? = none ∧ c.isFinite := by
  cases ht : transforms a b with
  | error cause => simp [Execution.applyAction_of_error ht]
  | ok result =>
    rw [Execution.applyAction_of_ok ht]
    cases hf : Execution.faultAfter i a rate result with
    | none =>
      have hchecks := Execution.faultAfter_eq_none_iff.mp hf
      constructor
      · intro h
        cases h
        exact ⟨rfl, hchecks⟩
      · rintro ⟨h, -⟩
        cases h
        rfl
    | some e =>
      constructor
      · intro h
        cases h
      · rintro ⟨h, hchecks⟩
        cases h
        rw [Execution.faultAfter_eq_none_iff.mpr hchecks] at hf
        cases hf

lemma rate_of_applyAll {i : Nat} {rate : UInt32} {actions : List Action} {b c : Buffer}
    (hb : b.rate = rate) (h : (applyAll transforms i rate actions b).result = .ok c) :
    c.rate = rate := by
  induction actions generalizing b with
  | nil =>
    cases h
    exact hb
  | cons a rest ih =>
    rw [result_applyAll_cons] at h
    cases ha : Execution.applyAction transforms i rate a b with
    | error e =>
      rw [ha] at h
      cases h
    | ok result =>
      rw [ha] at h
      exact ih (applyAction_eq_ok_iff.mp ha).2.1 h

/-- A statement starts from a stem or from a deposit of the name. -/
lemma input_eq_ok {i : Nat} {source : Source} {b : Buffer}
    (h : input stems kept i source = .ok b) :
    (∃ s, source = .stem s ∧ stems.get? s = some b) ∨
      ∃ d ∈ kept, source = .sink d.sink.name ∧ d.buffer = b := by
  cases source with
  | stem s =>
    rw [input] at h
    cases hs : stems.get? s with
    | none =>
      rw [hs] at h
      cases h
    | some stem =>
      rw [hs] at h
      cases h
      exact .inl ⟨s, rfl, hs⟩
  | sink name =>
    rw [input] at h
    cases hd : kept.find? (·.sink.name = name) with
    | none =>
      rw [hd] at h
      cases h
    | some d =>
      rw [hd] at h
      cases h
      have hname : d.sink.name = name := by simpa using List.find?_some hd
      exact .inr ⟨d, List.mem_of_find?_eq_some hd, by rw [hname], rfl⟩

lemma result_evaluateStatement (transforms : Transforms) (stems : StemMap Buffer)
    (kept : List Deposit) (s : Statement) :
    (evaluateStatement transforms stems kept s).result =
      input stems kept kept.length s.source >>= fun b =>
        (applyAll transforms kept.length b.rate s.actions b).result >>= fun c =>
          .ok ⟨s.sink, c⟩ := by
  simp only [evaluateStatement, Traced.result_bind, Traced.result_ofExcept]
  rfl

lemma result_evaluateFrom_cons (transforms : Transforms) (stems : StemMap Buffer)
    (kept : List Deposit) (s : Statement) (rest : List Statement) :
    (evaluateFrom transforms stems kept (s :: rest)).result =
      (evaluateStatement transforms stems kept s).result >>= fun d =>
        (evaluateFrom transforms stems (kept ++ [d]) rest).result := by
  rw [evaluateFrom, Traced.result_bind]

lemma result_evaluateFrom_append (transforms : Transforms) (stems : StemMap Buffer)
    (kept : List Deposit) (ss rest : List Statement) :
    (evaluateFrom transforms stems kept (ss ++ rest)).result =
      (evaluateFrom transforms stems kept ss).result >>= fun kept =>
        (evaluateFrom transforms stems kept rest).result := by
  induction ss generalizing kept with
  | nil => rfl
  | cons s ss ih =>
    rw [List.cons_append, result_evaluateFrom_cons, result_evaluateFrom_cons]
    cases (evaluateStatement transforms stems kept s).result with
    | error e => rfl
    | ok d => exact ih (kept ++ [d])

/-- What an evaluation keeps goes to the sinks of the statements. -/
lemma evaluateFrom_sinks {rest : List Statement}
    (h : (evaluateFrom transforms stems kept rest).result = .ok kept') :
    kept'.map (·.sink) = kept.map (·.sink) ++ rest.map (·.sink) := by
  induction rest generalizing kept with
  | nil =>
    cases h
    rw [List.map_nil, List.append_nil]
  | cons s rest ih =>
    obtain ⟨d, hd, hrest⟩ := Traced.result_bind_eq_ok_iff.mp h
    rw [ih hrest, List.map_append, List.append_assoc, List.map_singleton, evaluateStatement_sink hd,
      List.map_cons, List.singleton_append]

lemma evaluateFrom_names {before : List Statement}
    (h : (evaluateFrom transforms stems [] before).result = .ok kept) :
    kept.length = before.length ∧ ∀ d ∈ kept, d.sink.name ∈ sinkNames before := by
  have hsinks : kept.map (·.sink) = before.map (·.sink) := evaluateFrom_sinks h
  refine ⟨length_eq_of_map_eq hsinks, fun d hd => ?_⟩
  have hmem : d.sink ∈ before.map (·.sink) := hsinks ▸ List.mem_map_of_mem hd
  obtain ⟨s, hs, he⟩ := List.mem_map.mp hmem
  exact List.mem_map.mpr ⟨s, hs, congrArg Sink.name he⟩

end Evaluation

/-- The deposits of all statements of a recipe. -/
def Recipe.evaluate (r : Recipe) (stems : StemMap Buffer) (transforms : Transforms) :
    Traced Call RuntimeError (List Deposit) :=
  Evaluation.evaluateFrom transforms stems [] r.statements

end Remix
