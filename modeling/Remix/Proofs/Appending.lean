import Remix.Proofs.Formatting
import Remix.Proofs.Readers

/-!
# One statement more

A recipe that has a plan goes on having one when a statement is written behind it that is not
faulty there. The text is read as before, with the statement at the end, and the plan gets one more
statement and one more reader. So what a recipe names can be used further on.
-/

namespace Remix

open Text (Placed Position isBlank)

namespace Recipe

variable {p : Position} {cs ds : List Char} {ts us : List (Placed Token)}

lemma Token.Fits.append {k : Token} (h : k.Fits cs) (hds : ∀ c ∈ ds.head?, ¬isWordChar c) :
    k.Fits (cs ++ ds) := by
  cases k with
  | word letters =>
    refine ⟨h.1, fun c hc => ?_⟩
    rw [List.head?_append] at hc
    cases hcs : cs.head? with
    | none =>
      rw [hcs] at hc
      exact hds c hc
    | some d =>
      rw [hcs] at hc
      exact h.2 c (hcs.trans hc)
  | _ => trivial

/-- Layouts can be put together where the second does not go on with the last word of the first. -/
lemma Laid.append (h : Laid p cs ts) (hds : ∀ c ∈ ds.head?, ¬isWordChar c)
    (h' : Laid (p.after cs) ds us) : Laid p (cs ++ ds) (ts ++ us) := by
  induction h with
  | nil => exact h'
  | blank hc _ ih => exact .blank hc (ih h')
  | @token p k cs ts hk _ ih =>
    rw [Position.after_append] at h'
    rw [List.append_assoc]
    exact .token (hk.append hds) (ih h')

/-- A statement that can be written may be written behind any recipe. -/
lemma ofText_append {text : String} {r : Recipe} {s : Statement} (h : ofText text = .ok r)
    (hs : s.Writable) : ofText (text ++ " " ++ s.text) = .ok ⟨r.statements ++ [s]⟩ := by
  obtain ⟨clauses, hread, hstatements⟩ := ofText_eq_ok_iff.mp h
  obtain ⟨ts, htokens, parts, hne, hflatten, hparts⟩ := read_eq_iff.mp hread
  have hlaid := tokens_eq_ok_iff.mp htokens
  have hlays : Lays (' ' :: s.text.toList) s.tokens := by
    have hstatement := lays_statementText hs .nil
    rw [List.append_nil, List.append_nil] at hstatement
    exact .blank (by decide) hstatement
  obtain ⟨us, hus, hvalues⟩ := hlays (Position.start.after text.toList)
  have hwhole : tokens (text ++ " " ++ s.text) = .ok (ts ++ us) := by
    refine tokens_eq_ok_iff.mpr ?_
    rw [String.toList_append, String.toList_append, List.append_assoc]
    refine hlaid.append (fun c hc => ?_) hus
    cases hc
    decide
  obtain ⟨q, hclause⟩ := isClause_of_tokens hs hvalues
  have hparts' : List.Forall₂ IsClause (parts ++ [us]) (clauses ++ [.kept ⟨s, q⟩]) :=
    List.rel_append hparts (.cons hclause .nil)
  refine ofText_eq_ok_iff.mpr ⟨_, read_eq_iff.mpr ⟨_, hwhole, _, ?_, ?_, hparts'⟩, ?_⟩
  · simp
  · simp [hflatten]
  · simp [hstatements, Clause.statement?]

end Recipe

namespace Plan

variable {p plan : Plan} {scope : Scope} {earlier ss : List Statement} {r : Recipe}
  {s : Statement} {origin : Origin}

lemma map_sink_countReader (p : Plan) (origin : Origin) :
    (p.countReader origin).statements.map (·.sink) = p.statements.map (·.sink) := by
  cases origin with
  | stem t => rfl
  | sink name i =>
    refine List.ext_getElem? fun j => ?_
    simp only [countReader, List.getElem?_map, List.getElem?_modify]
    cases p.statements[j]? with
    | none => rfl
    | some q => by_cases hij : i = j <;> simp [hij]

lemma length_countReader (p : Plan) (origin : Origin) :
    (p.countReader origin).statements.length = p.statements.length :=
  length_eq_of_map_eq (map_sink_countReader p origin)

lemma length_addStatement (p : Plan) (origin : Origin) (s : Statement) :
    (p.addStatement origin s).statements.length = p.statements.length + 1 := by
  rw [addStatement, List.length_append, length_countReader, List.length_singleton]

/-- The new statement is the last one. -/
lemma getElem?_addStatement (p : Plan) (origin : Origin) (s : Statement) :
    (p.addStatement origin s).statements[p.statements.length]? =
      some ⟨p.statements.length, origin, s.actions, s.sink, 0⟩ := by
  rw [addStatement, getElem?_concat, if_pos (length_countReader p origin).symm]

lemma saved_addStatement (p : Plan) (origin : Origin) (s : Statement) :
    ∃ names, (p.addStatement origin s).saved = p.saved ++ names := by
  have hsaved : ∀ p : Plan, p.saved = ((p.statements.map (·.sink)).filter (·.saved)).map (·.name) := by
    intro p
    simp [saved, List.filter_map, Function.comp_def]
  rw [hsaved, hsaved, addStatement, List.map_append, map_sink_countReader, List.filter_append,
    List.map_append]
  exact ⟨_, rfl⟩

/-- Where a statement is planned, the scope knows its sink afterwards. -/
lemma describes_of_define (h : scope.Describes earlier) {scope' : Scope}
    (hd : scope.define earlier.length s.source s.sink.name = .ok scope') :
    scope'.Describes (earlier ++ [s]) := by
  have hs : ¬ s.SinkFault earlier := by
    intro hfault
    obtain ⟨e, he, -⟩ := h.define_of_sinkFault (i := earlier.length) hfault
    rw [hd] at he
    cases he
  rw [h.define_of_not_sinkFault hs] at hd
  cases hd
  exact h.cons fun hm => hs (.inr hm)

/-- Planning goes on from the plan of the statements before. -/
lemma result_extend_concat (h : scope.Describes earlier)
    (hp : p.statements.length = earlier.length) (hplan : (extend scope p ss).result = .ok plan)
    (hs : ¬ s.SinkFault (earlier ++ ss)) (ho : RefersTo (earlier ++ ss) s.source origin) :
    (extend scope p (ss ++ [s])).result = .ok (plan.addStatement origin s) := by
  induction ss generalizing scope earlier p with
  | nil =>
    cases hplan
    rw [List.append_nil] at hs ho
    rw [List.nil_append, extend, hp, h.find_eq_ok_iff.mpr ho, Traced.ofExcept_ok_bind,
      h.define_of_not_sinkFault hs, Traced.ofExcept_ok_bind,
      Traced.result_bind_ok (Traced.result_tell _)]
    rfl
  | cons t ss ih =>
    rw [extend] at hplan
    obtain ⟨origin', hfind, hplan⟩ := Traced.result_bind_eq_ok_iff.mp hplan
    obtain ⟨scope', hdefine, hplan⟩ := Traced.result_bind_eq_ok_iff.mp hplan
    rw [Traced.result_bind_ok (Traced.result_tell _)] at hplan
    rw [Traced.result_ofExcept] at hfind hdefine
    rw [List.append_cons] at hs ho
    rw [List.cons_append, extend, hfind, Traced.ofExcept_ok_bind, hdefine,
      Traced.ofExcept_ok_bind, Traced.result_bind_ok (Traced.result_tell _)]
    rw [hp] at hdefine
    have hlength : (p.addStatement origin' t).statements.length = (earlier ++ [t]).length := by
      rw [length_addStatement, hp, List.length_append, List.length_singleton]
    exact ih (describes_of_define h hdefine) hlength hplan hs ho

lemma ofRecipe_eq_ok_iff : ofRecipe r = .ok plan ↔
    (extend [] empty r.statements).result = .ok plan ∧ ¬ plan.saved.isEmpty := by
  unfold ofRecipe build
  cases hextend : (extend [] empty r.statements).result with
  | error e =>
    rw [Traced.result_bind_error hextend]
    refine iff_of_false nofun ?_
    rintro ⟨h, -⟩
    cases h
  | ok p =>
    rw [Traced.result_bind_ok hextend]
    by_cases hp : p.saved.isEmpty
    · simp only [hp, if_true]
      refine iff_of_false nofun ?_
      rintro ⟨h, hsaved⟩
      cases h
      exact hsaved hp
    · simp only [hp]
      constructor
      · intro h
        cases h
        exact ⟨rfl, hp⟩
      · rintro ⟨h, -⟩
        cases h
        rfl

/-- A recipe with a statement more that is not faulty there has the plan with one more statement. -/
theorem ofRecipe_concat (h : ofRecipe r = .ok plan) (hs : ¬ s.SinkFault r.statements)
    (ho : RefersTo r.statements s.source origin) :
    ofRecipe ⟨r.statements ++ [s]⟩ = .ok (plan.addStatement origin s) := by
  obtain ⟨hextend, hsaved⟩ := ofRecipe_eq_ok_iff.mp h
  refine ofRecipe_eq_ok_iff.mpr
    ⟨result_extend_concat Scope.describes_nil rfl hextend hs ho, fun hempty => hsaved ?_⟩
  obtain ⟨names, hnames⟩ := saved_addStatement plan origin s
  rw [hnames, List.isEmpty_iff, List.append_eq_nil_iff] at hempty
  exact List.isEmpty_iff.mpr hempty.1

/-- A name that a plan knows, and that no stem has, refers to the one statement that gave it. -/
lemma refersTo_sinkName {i : Nat} {q : PlannedStatement} (h : ofRecipe r = .ok plan)
    (hq : plan.statements[i]? = some q) (hstem : ∀ s : Stem, q.sink.name ≠ s.name) :
    RefersTo r.statements (.sink q.sink.name) (.sink q.sink.name i) := by
  have hnames := map_sinkName h
  have hi : (sinkNames r.statements)[i]? = some q.sink.name := by
    rw [← hnames, List.getElem?_map, hq]
    rfl
  refine .sink hstem fun k => ⟨fun hk => ?_, fun hk => hk ▸ hi⟩
  obtain ⟨hlt, -⟩ := List.getElem?_eq_some_iff.mp hk
  exact (List.getElem?_inj hlt (hnames ▸ nodup_sinks h)).mp (hk.trans hi.symm)

/-- The sinks of a recipe that was read can be written. -/
lemma writable_sink {text : String} (hr : Recipe.ofText text = .ok r) (h : ofRecipe r = .ok plan)
    {q : PlannedStatement} (hq : q ∈ plan.statements) : q.sink.Writable := by
  have hmem : q.sink ∈ r.statements.map (·.sink) :=
    (resolves_statements h).map_sink ▸ List.mem_map_of_mem hq
  obtain ⟨t, ht, hsink⟩ := List.mem_map.mp hmem
  exact hsink ▸ (Recipe.writable_of_ofText hr t ht).sink

end Plan

/-- The statement that saves the sink `name` once more, as `target`. -/
def Statement.rereading (name target : String) : Statement :=
  ⟨.sink name, [], ⟨target, true⟩⟩

lemma text_rereading (name target : String) :
    (Statement.rereading name target).text = name ++ " -> save(" ++ target ++ ");" := by
  apply String.toList_injective
  simp [Statement.rereading, Statement.text, Source.name, Sink.text, toString]

/-- What a recipe names can be read further on, unless the name means something else where sources
are named. The new statement reads the one statement whose sink has the name, and nothing else
changes. -/
theorem compile_reread (text : String) (plan : Plan) (h : (compile text).result = .ok plan)
    (i : Nat) (q : PlannedStatement) (hq : plan.statements[i]? = some q)
    (hstem : ∀ s : Stem, q.sink.name ≠ s.name) (haction : ∀ a : Action, q.sink.name ≠ a.keyword)
    (target : String) (hword : Recipe.IsWord target) (hdrop : target ≠ Recipe.dropWord)
    (hreserved : ∀ s : Stem, target ≠ s.name)
    (hfresh : ∀ q ∈ plan.statements, q.sink.name ≠ target) :
    ∃ next, (compile (text ++ " " ++ q.sink.name ++ " -> save(" ++ target ++ ");")).result =
        .ok next ∧
      next = plan.addStatement (.sink q.sink.name i) (.rereading q.sink.name target) ∧
      next.statements[plan.statements.length]? =
        some ⟨plan.statements.length, .sink q.sink.name i, [], ⟨target, true⟩, 0⟩ := by
  obtain ⟨r, hr, hplan⟩ := compile_eq_ok_iff.mp h
  have hsink : q.sink.Writable := Plan.writable_sink hr hplan (List.mem_of_getElem? hq)
  have hwritable : (Statement.rereading q.sink.name target).Writable :=
    ⟨⟨hsink.1, hstem, haction⟩, hword, hdrop, .inl rfl⟩
  have hsource := Plan.refersTo_sinkName hplan hq hstem
  have hnew : ¬ (Statement.rereading q.sink.name target).SinkFault r.statements := by
    rintro (⟨s, hs, -⟩ | hmem)
    · exact hreserved s hs
    · rw [← Plan.map_sinkName hplan] at hmem
      obtain ⟨p, hp, hname⟩ := List.mem_map.mp hmem
      exact hfresh p hp hname
  refine ⟨_, compile_eq_ok_iff.mpr ⟨_, ?_, Plan.ofRecipe_concat hplan hnew hsource⟩, rfl,
    Plan.getElem?_addStatement _ _ _⟩
  have htext : text ++ " " ++ q.sink.name ++ " -> save(" ++ target ++ ");" =
      text ++ " " ++ (Statement.rereading q.sink.name target).text := by
    rw [text_rereading]
    simp [String.append_assoc]
  rw [htext]
  exact Recipe.ofText_append hr hwritable

def delayedPlan : Plan :=
  ⟨[⟨0, .stem .vocals, [.late], ⟨"slow", false⟩, 1⟩, ⟨1, .sink "slow" 0, [], ⟨"v", true⟩, 0⟩],
    { vocals := some 1 }⟩

/-- A sink that is not saved is saved by the new statement, under the name of an action. -/
theorem compile_reread_delayed :
    (compile "vocals -> late -> slow; slow -> save(v);").result = .ok delayedPlan ∧
    delayedPlan.statements[0]? = some ⟨0, .stem .vocals, [.late], ⟨"slow", false⟩, 1⟩ ∧
    (∀ s : Stem, "slow" ≠ s.name) ∧ (∀ a : Action, "slow" ≠ a.keyword) ∧
    Recipe.IsWord "flat" ∧ "flat" ≠ Recipe.dropWord ∧ (∀ s : Stem, "flat" ≠ s.name) ∧
    (∀ q ∈ delayedPlan.statements, q.sink.name ≠ "flat") ∧
    ∃ next, (compile ("vocals -> late -> slow; slow -> save(v);" ++ " " ++ "slow" ++ " -> save(" ++
        "flat" ++ ");")).result = .ok next ∧
      next = delayedPlan.addStatement (.sink "slow" 0) (.rereading "slow" "flat") ∧
      next.statements[2]? = some ⟨2, .sink "slow" 0, [], ⟨"flat", true⟩, 0⟩ := by
  have hcompile : (compile "vocals -> late -> slow; slow -> save(v);").result = .ok delayedPlan := by
    decide
  have hstem : ∀ s : Stem, "slow" ≠ s.name := by intro s; cases s <;> decide
  have haction : ∀ a : Action, "slow" ≠ a.keyword := by intro a; cases a <;> decide
  have hreserved : ∀ s : Stem, "flat" ≠ s.name := by intro s; cases s <;> decide
  exact ⟨hcompile, rfl, hstem, haction, by decide, by decide, hreserved, by decide,
    compile_reread _ _ hcompile 0 _ rfl hstem haction "flat" (by decide) (by decide) hreserved
      (by decide)⟩

/-- A saved sink may have the name of an action, but a source may not. A statement may give a stem
its own name, but the name goes on meaning the stem. -/
theorem compile_reread_fails :
    ((compile "vocals -> save(flat);").result.map fun plan => plan.statements.map (·.sink.name)) =
      .ok ["flat"] ∧
    (compile ("vocals -> save(flat);" ++ " flat -> save(x);")).result =
      .error (.badRecipe ⟨.actionAsSource .flat, ⟨22, 1, 23⟩⟩) ∧
    ((compile "drums -> late -> drums; vocals -> save(v);").result.map fun plan =>
      plan.statements.map (·.sink)) = .ok [⟨"drums", false⟩, ⟨"v", true⟩] ∧
    ((compile ("drums -> late -> drums; vocals -> save(v);" ++ " drums -> save(f);")).result.map
      fun plan => plan.statements.map (·.origin)) =
        .ok [.stem .drums, .stem .vocals, .stem .drums] :=
  ⟨by decide, by decide, by decide, by decide⟩

end Remix
