import Remix.Proofs.Naming

/-!
# Which naming rule is broken

Planning tells of the first faulty statement and of one rule that it breaks, and
`Statement.Breaks` says which one without the scope: the source is looked at before the sink, and
whether a name is reserved before whether it is taken. So a name that an earlier sink has is told
as a repeated one, unless it is the name of a stem that the statement is not made from.
-/

namespace Remix

/-- The rule that planning tells of where the statement `s` is faulty after `earlier`. -/
inductive Statement.Breaks (earlier : List Statement) (s : Statement) : NamingError → Prop where
  | source {name : String} (hname : s.source = .sink name) (hsource : s.SourceFault earlier) :
      Breaks earlier s (.unknownReference name earlier.length)
  | reserved {t : Stem} (hsource : ¬ s.SourceFault earlier) (hname : s.sink.name = t.name)
      (ht : s.source ≠ .stem t) : Breaks earlier s (.reservedName s.sink.name earlier.length)
  | repeated {j : Nat} (hsource : ¬ s.SourceFault earlier)
      (hstem : ∀ t : Stem, s.sink.name = t.name → s.source = .stem t)
      (hj : ∀ k, (sinkNames earlier)[k]? = some s.sink.name ↔ k = j) :
      Breaks earlier s (.duplicateName s.sink.name earlier.length j)

lemma Statement.Breaks.unique {earlier : List Statement} {s : Statement} {e e' : NamingError}
    (h : s.Breaks earlier e) (h' : s.Breaks earlier e') : e = e' := by
  cases h with
  | source hname hsource =>
    cases h' with
    | source hname' =>
      rw [hname] at hname'
      cases hname'
      rfl
    | reserved hsource' => exact absurd hsource hsource'
    | repeated hsource' => exact absurd hsource hsource'
  | reserved hsource hname ht =>
    cases h' with
    | source _ hsource' => exact absurd hsource' hsource
    | reserved => rfl
    | repeated _ hstem => exact absurd (hstem _ hname) ht
  | repeated hsource hstem hj =>
    cases h' with
    | source _ hsource' => exact absurd hsource' hsource
    | reserved _ hname ht => exact absurd (hstem _ hname) ht
    | repeated _ _ hj' =>
      have heq := (hj' _).mp ((hj _).mpr rfl)
      rw [heq]

namespace Scope

variable {scope : Scope} {earlier : List Statement}

lemma eq_unknownReference_of_find {i : Nat} {name : String} {e : NamingError}
    (h : scope.find i (.sink name) = .error e) : e = .unknownReference name i := by
  simp only [find] at h
  split at h
  · cases h
  · cases h
    rfl

lemma Describes.exists_breaks (h : scope.Describes earlier) {s : Statement}
    (hs : s.Faulty earlier) : ∃ e, s.Breaks earlier e := by
  by_cases hsource : s.SourceFault earlier
  · obtain ⟨name, hname, -⟩ := id hsource
    exact ⟨_, .source hname hsource⟩
  · have hsink : s.SinkFault earlier := hs.resolve_left hsource
    by_cases hstem : ∀ t : Stem, s.sink.name = t.name → s.source = .stem t
    · have hmem : s.sink.name ∈ sinkNames earlier := by
        apply hsink.resolve_left
        rintro ⟨t, hname, ht⟩
        exact ht (hstem t hname)
      obtain ⟨j, hj⟩ := List.mem_iff_getElem?.mp hmem
      have hlookup := (h s.sink.name j).mpr hj
      refine ⟨_, .repeated hsource hstem (j := j) fun k => ?_⟩
      rw [← h s.sink.name k, hlookup, Option.some.injEq, eq_comm]
    · push Not at hstem
      obtain ⟨t, hname, ht⟩ := hstem
      exact ⟨_, .reserved hsource hname ht⟩

end Scope

namespace Plan

variable {scope : Scope} {earlier rest : List Statement} {s : Statement} {e : NamingError}

lemma result_resolve_of_breaks (h : scope.Describes earlier) (hs : s.Breaks earlier e)
    (rest : List Statement) : (resolve scope earlier.length (s :: rest)).result = .error e := by
  cases hs with
  | source hname hsource =>
    obtain ⟨name', hfind⟩ := h.find_of_sourceFault (i := earlier.length) hsource
    have htold := hname ▸ hfind
    rw [Scope.eq_unknownReference_of_find htold] at hfind
    rw [resolve, hfind, Traced.ofExcept_error_bind, Traced.result_fail]
  | reserved hsource hname ht =>
    obtain ⟨origin, hfind⟩ := h.find_of_not_sourceFault (i := earlier.length) hsource
    rw [resolve, hfind, Traced.ofExcept_ok_bind, hname, Scope.define_of_reserved ht,
      Traced.ofExcept_error_bind, Traced.result_fail]
  | repeated hsource hstem hj =>
    obtain ⟨origin, hfind⟩ := h.find_of_not_sourceFault (i := earlier.length) hsource
    have hdefine := h.define_of_repeated (i := earlier.length) hstem ((hj _).mpr rfl)
    rw [resolve, hfind, Traced.ofExcept_ok_bind, hdefine, Traced.ofExcept_error_bind,
      Traced.result_fail]

/-- The first faulty statement is blamed, and for the rule that it breaks. -/
theorem resolve_breaks (h : scope.Describes earlier) {i : Nat}
    (hi : IsLeast {k | FaultyAt earlier rest k} i) :
    ∃ s e, rest[i]? = some s ∧ s.Breaks (earlier ++ rest.take i) e ∧
      (resolve scope earlier.length rest).result = .error e := by
  induction rest generalizing scope earlier i with
  | nil => exact absurd hi.1 not_faultyAt_nil
  | cons t rest ih =>
    cases i with
    | zero =>
      obtain ⟨e, he⟩ := h.exists_breaks (faultyAt_zero.mp hi.1)
      have hbreaks : t.Breaks (earlier ++ (t :: rest).take 0) e := by simpa using he
      exact ⟨t, e, rfl, hbreaks, result_resolve_of_breaks h he rest⟩
    | succ i =>
      have ht : ¬ t.Faulty earlier := by
        intro hfaulty
        have hle : i + 1 ≤ 0 := hi.2 (faultyAt_zero.mpr hfaulty)
        omega
      have hsource : ¬ t.SourceFault earlier := fun hf => ht (.inl hf)
      have hsink : ¬ t.SinkFault earlier := fun hf => ht (.inr hf)
      have hleast : IsLeast {k | FaultyAt (earlier ++ [t]) rest k} i := by
        refine ⟨faultyAt_succ.mp hi.1, fun k hk => ?_⟩
        have hle : i + 1 ≤ k + 1 := hi.2 (faultyAt_succ.mpr hk)
        omega
      have hscope := h.cons (s := t) fun hm => hsink (.inr hm)
      have hlength : (earlier ++ [t]).length = earlier.length + 1 := List.length_append
      obtain ⟨s, e, hs, hbreaks, hresult⟩ := ih hscope hleast
      rw [hlength] at hresult
      rw [List.append_assoc] at hbreaks
      obtain ⟨origin, ho⟩ := h.find_of_not_sourceFault (i := earlier.length) hsource
      refine ⟨s, e, hs, hbreaks, ?_⟩
      rw [result_resolve_cons h hsink ho, hresult]
      rfl

/-- Planning fails on a single statement exactly for the rule that the first faulty one breaks. -/
theorem ofRecipe_eq_error_iff (r : Recipe) (e : NamingError) (he : e ≠ .emptyOutput) :
    ofRecipe r = .error e ↔ ∃ i s, IsLeast {k | FaultyAt [] r.statements k} i ∧
      r.statements[i]? = some s ∧ s.Breaks (r.statements.take i) e := by
  constructor
  · intro h
    rcases resolve_cases Scope.describes_nil r.statements with
      ⟨planned, hresult, -⟩ | ⟨-, i, -, hi, -⟩
    · rw [ofRecipe_of_resolves hresult] at h
      split at h
      · cases h
        exact absurd rfl he
      · cases h
    · obtain ⟨s, e', hs, hbreaks, hresult⟩ := resolve_breaks Scope.describes_nil hi
      rw [ofRecipe_of_fault hresult] at h
      cases h
      exact ⟨i, s, hi, hs, hbreaks⟩
  · rintro ⟨i, s, hi, hs, hbreaks⟩
    obtain ⟨s', e', hs', hbreaks', hresult⟩ := resolve_breaks Scope.describes_nil hi
    rw [hs] at hs'
    cases hs'
    rw [ofRecipe_of_fault hresult, hbreaks.unique hbreaks']

lemma length_take_of_getElem? {ss : List Statement} {i : Nat} (hs : ss[i]? = some s) :
    (ss.take i).length = i := by
  obtain ⟨hlt, -⟩ := List.getElem?_eq_some_iff.mp hs
  rw [List.length_take]
  omega

lemma ofRecipe_eq_duplicateName_iff (r : Recipe) (name : String) (i j : Nat) :
    ofRecipe r = .error (.duplicateName name i j) ↔
      IsLeast {k | FaultyAt [] r.statements k} i ∧ ∃ s, r.statements[i]? = some s ∧
        ¬ s.SourceFault (r.statements.take i) ∧ s.sink.name = name ∧
        (∀ k, (sinkNames (r.statements.take i))[k]? = some name ↔ k = j) ∧
        ∀ t : Stem, name = t.name → s.source = .stem t := by
  rw [ofRecipe_eq_error_iff r _ (by simp)]
  constructor
  · rintro ⟨k, s, hk, hs, hbreaks⟩
    have hlength := length_take_of_getElem? hs
    generalize he : NamingError.duplicateName name i j = e at hbreaks
    cases hbreaks with
    | source => cases he
    | reserved => cases he
    | repeated hsource hstem hj =>
      cases he
      rw [hlength]
      exact ⟨hk, s, hs, hsource, rfl, hj, hstem⟩
  · rintro ⟨hi, s, hs, hsource, rfl, hj, hstem⟩
    have hbreaks := Statement.Breaks.repeated hsource hstem hj
    rw [length_take_of_getElem? hs] at hbreaks
    exact ⟨i, s, hi, hs, hbreaks⟩

lemma ofRecipe_eq_reservedName_iff (r : Recipe) (name : String) (i : Nat) :
    ofRecipe r = .error (.reservedName name i) ↔
      IsLeast {k | FaultyAt [] r.statements k} i ∧ ∃ s, r.statements[i]? = some s ∧
        ¬ s.SourceFault (r.statements.take i) ∧ s.sink.name = name ∧
        ∃ t : Stem, name = t.name ∧ s.source ≠ .stem t := by
  rw [ofRecipe_eq_error_iff r _ (by simp)]
  constructor
  · rintro ⟨k, s, hk, hs, hbreaks⟩
    have hlength := length_take_of_getElem? hs
    generalize he : NamingError.reservedName name i = e at hbreaks
    cases hbreaks with
    | source => cases he
    | repeated => cases he
    | reserved hsource hname ht =>
      cases he
      rw [hlength]
      exact ⟨hk, s, hs, hsource, rfl, _, hname, ht⟩
  · rintro ⟨hi, s, hs, hsource, rfl, t, hname, ht⟩
    have hbreaks := Statement.Breaks.reserved hsource hname ht
    rw [length_take_of_getElem? hs] at hbreaks
    exact ⟨i, s, hi, hs, hbreaks⟩

/-- A name that an earlier sink has is told as a repeated one, with the one statement that gave it
first, unless the name is reserved for a stem that the statement is not made from. Then it is told
as a reserved one, whether an earlier sink has it or not. -/
theorem ofRecipe_sinkError_iff (r : Recipe) :
    (∀ name i j, ofRecipe r = .error (.duplicateName name i j) ↔
      IsLeast {k | FaultyAt [] r.statements k} i ∧ ∃ s, r.statements[i]? = some s ∧
        ¬ s.SourceFault (r.statements.take i) ∧ s.sink.name = name ∧
        (∀ k, (sinkNames (r.statements.take i))[k]? = some name ↔ k = j) ∧
        ∀ t : Stem, name = t.name → s.source = .stem t) ∧
    ∀ name i, ofRecipe r = .error (.reservedName name i) ↔
      IsLeast {k | FaultyAt [] r.statements k} i ∧ ∃ s, r.statements[i]? = some s ∧
        ¬ s.SourceFault (r.statements.take i) ∧ s.sink.name = name ∧
        ∃ t : Stem, name = t.name ∧ s.source ≠ .stem t :=
  ⟨ofRecipe_eq_duplicateName_iff r, ofRecipe_eq_reservedName_iff r⟩

/-- A recipe that saves the drums under their own name and then the vocals under it, too. -/
def drumsTwice : Recipe :=
  ⟨[⟨.stem .drums, [], ⟨"drums", true⟩⟩, ⟨.stem .vocals, [], ⟨"drums", true⟩⟩]⟩

/-- The second statement is the first faulty one, its source is right and the first one has its
name, but what is told is that the name is reserved. -/
theorem ofRecipe_drumsTwice :
    IsLeast {k | FaultyAt [] drumsTwice.statements k} 1 ∧
    ¬ SourceFaultAt [] drumsTwice.statements 1 ∧
    sinkNames drumsTwice.statements = ["drums", "drums"] ∧
    ofRecipe drumsTwice = .error (.reservedName "drums" 1) ∧
    ofRecipe drumsTwice ≠ .error (.duplicateName "drums" 1 0) := by
  have htold : ofRecipe drumsTwice = .error (.reservedName "drums" 1) := by rfl
  obtain ⟨hleast, s, hs, hsource, -⟩ := (ofRecipe_eq_reservedName_iff _ _ _).mp htold
  have hfine : ¬ SourceFaultAt [] drumsTwice.statements 1 := by
    rintro ⟨s', hs', hfault⟩
    rw [hs] at hs'
    cases hs'
    exact hsource hfault
  have hother : ofRecipe drumsTwice ≠ .error (.duplicateName "drums" 1 0) := by
    rw [htold]
    simp
  exact ⟨hleast, hfine, rfl, htold, hother⟩

end Plan

end Remix
