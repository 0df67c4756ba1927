import Remix.Proofs.Evaluation

/-!
# Evaluating statements under other numbers

A statement means the same wherever it stands, as long as it finds its track: only the errors name
its number. Where one list of deposits holds more than another, under names that nobody uses, the
statements that follow on both give the same deposits, or fail in the same way a few numbers later.
-/

namespace Remix

/-- Both fail, with related errors, or both succeed with related values. -/
inductive Related {ε δ α β : Type} (E : ε → δ → Prop) (R : α → β → Prop) :
    Except ε α → Except δ β → Prop where
  | error {e : ε} {e' : δ} (h : E e e') : Related E R (.error e) (.error e')
  | ok {a : α} {b : β} (h : R a b) : Related E R (.ok a) (.ok b)

namespace Related

variable {ε δ α β γ ζ : Type} {E F : ε → δ → Prop} {R : α → β → Prop} {S : γ → ζ → Prop}
  {x : Except ε α} {y : Except δ β}

lemma imp_error (h : Related E R x y) (hE : ∀ e e', E e e' → F e e') : Related F R x y := by
  cases h with
  | error he => exact .error (hE _ _ he)
  | ok hr => exact .ok hr

lemma imp_ok {R' : α → β → Prop} (h : Related E R x y) (hR : ∀ a b, R a b → R' a b) :
    Related E R' x y := by
  cases h with
  | error he => exact .error he
  | ok hr => exact .ok (hR _ _ hr)

lemma self {x : Except ε α} {E : ε → ε → Prop} {R : α → α → Prop} (h : Related E R x x) :
    Related E (fun a b => a = b ∧ x = .ok a) x x := by
  cases h with
  | error he => exact .error he
  | ok _ => exact .ok ⟨rfl, rfl⟩

lemma exists_ok_iff (h : Related E R x y) : (∃ a, x = .ok a) ↔ ∃ b, y = .ok b := by
  cases h with
  | error he => simp
  | ok hr => simp

lemma of_ok {a : α} {b : β} (h : Related E R (.ok a) (.ok b)) : R a b := by
  cases h with
  | ok hr => exact hr

lemma eq_ok_iff {x : Except ε α} {y : Except δ α} (h : Related E Eq x y) {a : α} :
    x = .ok a ↔ y = .ok a := by
  cases h with
  | error he => simp
  | ok hr => rw [hr, Except.ok.injEq, Except.ok.injEq]

lemma bind {f : α → Except ε γ} {g : β → Except δ ζ} (h : Related E R x y)
    (hf : ∀ a b, R a b → Related E S (f a) (g b)) : Related E S (x >>= f) (y >>= g) := by
  cases h with
  | error he => exact .error he
  | ok hr => exact hf _ _ hr

end Related

/-- The same failure of a statement that has number `i` in one recipe and number `j` in another: its
track is missing, or one of its actions has failed. -/
inductive SameFailure (s : Statement) (i j : Nat) : RuntimeError → RuntimeError → Prop where
  | missingStem {t : Stem} (h : s.source = .stem t) :
      SameFailure s i j (.missingStem t i) (.missingStem t j)
  | missingSink {name : String} (h : s.source = .sink name) :
      SameFailure s i j (.missingSink name i) (.missingSink name j)
  | transformFailed {a : Action} (h : a ∈ s.actions) (cause : TransformError) :
      SameFailure s i j (.transformFailed i a cause) (.transformFailed j a cause)
  | incompatibleRate {a : Action} (h : a ∈ s.actions) (expected found : UInt32) :
      SameFailure s i j (.incompatibleRate s!"statement {i} after '{a.keyword}'" expected found)
        (.incompatibleRate s!"statement {j} after '{a.keyword}'" expected found)

namespace Evaluation

variable {transforms : Transforms} {stems : StemMap Buffer} {kept kept' : List Deposit}
  {s : Statement}

lemma applyAction_renumber {a : Action} (ha : a ∈ s.actions) (transforms : Transforms) (i j : Nat)
    (rate : UInt32) (b : Buffer) :
    Related (SameFailure s i j) Eq (Execution.applyAction transforms i rate a b)
      (Execution.applyAction transforms j rate a b) := by
  cases ht : transforms a b with
  | error cause =>
    rw [Execution.applyAction_of_error ht, Execution.applyAction_of_error ht]
    exact .error (.transformFailed ha cause)
  | ok result =>
    rw [Execution.applyAction_of_ok ht, Execution.applyAction_of_ok ht]
    unfold Execution.faultAfter
    by_cases hrate : result.rate ≠ rate
    · rw [if_pos hrate, if_pos hrate]
      exact .error (.incompatibleRate ha rate result.rate)
    · rw [if_neg hrate, if_neg hrate]
      cases result.layoutFault? with
      | some fault => exact .error (.transformFailed ha _)
      | none =>
        cases result.isFinite with
        | true => exact .ok rfl
        | false => exact .error (.transformFailed ha _)

lemma applyAll_renumber {actions : List Action} (hactions : ∀ a ∈ actions, a ∈ s.actions)
    (transforms : Transforms) (i j : Nat) (rate : UInt32) (b : Buffer) :
    Related (SameFailure s i j) Eq (applyAll transforms i rate actions b).result
      (applyAll transforms j rate actions b).result := by
  induction actions generalizing b with
  | nil => exact .ok rfl
  | cons a rest ih =>
    rw [result_applyAll_cons, result_applyAll_cons]
    have ha : a ∈ s.actions := hactions a List.mem_cons_self
    refine (applyAction_renumber ha transforms i j rate b).bind ?_
    rintro c _ rfl
    exact ih (fun a' ha' => hactions a' (List.mem_cons_of_mem a ha')) c

/-- A statement starts from the same buffer wherever its source is found alike. -/
lemma input_renumber (hs : ∀ name, s.source = .sink name →
      kept'.find? (·.sink.name = name) = kept.find? (·.sink.name = name))
    (stems : StemMap Buffer) (i j : Nat) :
    Related (SameFailure s i j) Eq (input stems kept i s.source)
      (input stems kept' j s.source) := by
  cases hsource : s.source with
  | stem t =>
    dsimp only [input]
    cases stems.get? t with
    | none => exact .error (.missingStem hsource)
    | some b => exact .ok rfl
  | sink name =>
    dsimp only [input]
    rw [hs name hsource]
    cases kept.find? (·.sink.name = name) with
    | none => exact .error (.missingSink hsource)
    | some d => exact .ok rfl

/-- The statements `rest` find the same deposits in both lists. -/
def FindAlike (rest : List Statement) (kept kept' : List Deposit) : Prop :=
  ∀ s ∈ rest, ∀ name, s.source = .sink name →
    kept'.find? (·.sink.name = name) = kept.find? (·.sink.name = name)

namespace FindAlike

variable {rest : List Statement}

lemma mono {more : List Statement} (h : FindAlike more kept kept')
    (hrest : ∀ s ∈ rest, s ∈ more) : FindAlike rest kept kept' := fun s hs => h s (hrest s hs)

lemma concat (h : FindAlike rest kept kept') (d : Deposit) :
    FindAlike rest (kept ++ [d]) (kept' ++ [d]) := by
  intro s hs name hsource
  rw [List.find?_append, List.find?_append, h s hs name hsource]

/-- A deposit that nobody reads need not be kept. -/
lemma concat_left (h : FindAlike rest kept kept') {d : Deposit}
    (hd : ∀ s ∈ rest, s.source ≠ .sink d.sink.name) : FindAlike rest (kept ++ [d]) kept' := by
  intro s hs name hsource
  have hname : ¬ d.sink.name = name := by
    rintro rfl
    exact hd s hs hsource
  simp [h s hs name hsource, hname]

protected lemma evaluateStatement (h : FindAlike (s :: rest) kept kept') (transforms : Transforms)
    (stems : StemMap Buffer) :
    Related (SameFailure s kept.length kept'.length) Eq
      (evaluateStatement transforms stems kept s).result
      (evaluateStatement transforms stems kept' s).result := by
  rw [result_evaluateStatement, result_evaluateStatement]
  refine (input_renumber (h s List.mem_cons_self) stems _ _).bind ?_
  rintro b _ rfl
  refine (applyAll_renumber (fun _ ha => ha) _ _ _ _ _).bind ?_
  rintro c _ rfl
  exact .ok rfl

/-- Statements that find the same deposits add the same deposits. -/
protected theorem evaluateFrom (h : FindAlike rest kept kept') (transforms : Transforms)
    (stems : StemMap Buffer) :
    Related
      (fun e e' => ∃ k s, rest[k]? = some s ∧
        SameFailure s (kept.length + k) (kept'.length + k) e e')
      (fun all all' => ∃ new, all = kept ++ new ∧ all' = kept' ++ new)
      (evaluateFrom transforms stems kept rest).result
      (evaluateFrom transforms stems kept' rest).result := by
  induction rest generalizing kept kept' with
  | nil => exact .ok ⟨[], (List.append_nil _).symm, (List.append_nil _).symm⟩
  | cons s rest ih =>
    rw [result_evaluateFrom_cons, result_evaluateFrom_cons]
    refine ((h.evaluateStatement transforms stems).imp_error ?_).bind ?_
    · intro e e' he
      exact ⟨0, s, rfl, he⟩
    · rintro d _ rfl
      have hrest := ih ((h.mono fun t ht => List.mem_cons_of_mem s ht).concat d)
      refine (hrest.imp_error ?_).imp_ok ?_
      · rintro e e' ⟨k, t, ht, he⟩
        have hnext : ∀ ds : List Deposit, (ds ++ [d]).length + k = ds.length + (k + 1) := by
          intro ds
          rw [List.length_append, List.length_singleton]
          omega
        rw [hnext, hnext] at he
        exact ⟨k + 1, t, ht, he⟩
      · rintro all all' ⟨new, rfl, rfl⟩
        exact ⟨d :: new, (List.append_cons _ _ _).symm, (List.append_cons _ _ _).symm⟩

end FindAlike

lemma saved_append (kept new : List Deposit) : saved (kept ++ new) = saved kept ++ saved new := by
  unfold saved
  rw [List.filter_append, List.map_append]

lemma saved_singleton (d : Deposit) :
    saved [d] = if d.sink.saved then [⟨d.sink.name, d.buffer⟩] else [] := by
  cases hs : d.sink.saved <;> simp [saved, hs]

/-- `kept'` holds `n` deposits more than `kept`, none of them saved, and finds the same ones under
all names but the hidden ones. -/
structure Hides (hidden : String → Prop) (n : Nat) (kept kept' : List Deposit) : Prop where
  length : kept'.length = kept.length + n
  find : ∀ name, ¬ hidden name →
    kept'.find? (·.sink.name = name) = kept.find? (·.sink.name = name)
  saved : saved kept' = saved kept

lemma Hides.append {hidden : String → Prop} {n : Nat} (h : Hides hidden n kept kept')
    (new : List Deposit) : Hides hidden n (kept ++ new) (kept' ++ new) := by
  refine ⟨?_, fun name hname => ?_, ?_⟩
  · rw [List.length_append, List.length_append, h.length]
    omega
  · rw [List.find?_append, List.find?_append, h.find name hname]
  · rw [saved_append, saved_append, h.saved]

/-- Statements that use no hidden name do the same where more is kept. -/
theorem Hides.evaluateFrom {hidden : String → Prop} {n : Nat} (h : Hides hidden n kept kept')
    {rest : List Statement} (hrest : ∀ s ∈ rest, ∀ name, s.source = .sink name → ¬ hidden name)
    (transforms : Transforms) (stems : StemMap Buffer) :
    Related
      (fun e e' => ∃ k s, rest[k]? = some s ∧
        SameFailure s (kept.length + k) (kept.length + k + n) e e')
      (Hides hidden n) (evaluateFrom transforms stems kept rest).result
      (evaluateFrom transforms stems kept' rest).result := by
  have halike : FindAlike rest kept kept' := fun s hs name hsource =>
    h.find name (hrest s hs name hsource)
  refine ((halike.evaluateFrom transforms stems).imp_error ?_).imp_ok ?_
  · rintro e e' ⟨k, s, hs, he⟩
    rw [h.length, Nat.add_right_comm] at he
    exact ⟨k, s, hs, he⟩
  · rintro all all' ⟨new, rfl, rfl⟩
    exact h.append new

end Evaluation

end Remix
