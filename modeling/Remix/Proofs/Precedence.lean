import Mathlib.Tactic.Common
import Remix.Proofs.Formatting
import Remix.Proofs.Release
import Remix.Proofs.RequiredStems
import Remix.Proofs.Roots

/-!
# Recipes come first

A wrong recipe ends a run before the settings, the stems or the place of the mix are looked at, and
a recipe that compiles is never what a later stage complains of. So a check of a recipe tells whether
a render of it would fail for the sake of the recipe. Separation begins behind the compiler, once.
-/

namespace Remix

namespace Traced

variable {ν ε α β : Type} {P : ν → Prop}

/-- Every event that is told satisfies `P`. -/
def OnlyTells (P : ν → Prop) (x : Traced ν ε α) : Prop := ∀ e ∈ x.events, P e

lemma onlyTells_pure (a : α) : (pure a : Traced ν ε α).OnlyTells P := nofun

lemma onlyTells_fail (e : ε) : (fail e : Traced ν ε α).OnlyTells P := nofun

lemma onlyTells_ofExcept (x : Except ε α) : (ofExcept x : Traced ν ε α).OnlyTells P := nofun

lemma onlyTells_tell {event : ν} (h : P event) : (tell event : Traced ν ε Unit).OnlyTells P := by
  intro e he
  rw [List.mem_singleton.mp he]
  exact h

lemma onlyTells_tellAll {events : List ν} (h : ∀ e ∈ events, P e) :
    (tellAll events : Traced ν ε Unit).OnlyTells P := h

lemma OnlyTells.mapError {ε' : Type} {x : Traced ν ε α} (h : x.OnlyTells P) (g : ε → ε') :
    (x.mapError g).OnlyTells P := h

lemma OnlyTells.bind {x : Traced ν ε α} {f : α → Traced ν ε β} (hx : x.OnlyTells P)
    (hf : ∀ a, (f a).OnlyTells P) : (x >>= f).OnlyTells P := by
  intro e he
  cases h : x.result with
  | error e' =>
    rw [events_bind_error h] at he
    exact hx e he
  | ok a =>
    rw [events_bind_ok h, List.mem_append] at he
    exact he.elim (hx e) (hf a e)

lemma bind_of_error {x : Traced ν ε α} {e : ε} (h : x.result = .error e) (f : α → Traced ν ε β) :
    x >>= f = ⟨x.events, .error e⟩ := by
  change Traced.bind x f = _
  rw [Traced.bind, h]

end Traced

lemma mapError_eq_ok_iff {ε ε' α : Type} {x : Except ε α} {g : ε → ε'} {a : α} :
    x.mapError g = .ok a ↔ x = .ok a := by
  cases x <;> simp [Except.mapError]

/-! ### Events -/

/-- An event other than the beginning of a separation. -/
def Event.IsPlain (e : Event) : Prop := ∀ path, e ≠ .separating path

lemma plain_readRecipe (text : String) : (readRecipe text).OnlyTells Event.IsPlain := by
  refine (Traced.onlyTells_tellAll fun e he => ?_).bind fun _ =>
    (Traced.onlyTells_ofExcept _).bind fun _ => Traced.onlyTells_pure _
  obtain ⟨⟨clause, i⟩, -, hclause⟩ := List.mem_filterMap.mp he
  cases clause with
  | dropped =>
    cases hclause
    exact nofun
  | kept s => cases hclause

lemma plain_extend (scope : Scope) (p : Plan) (statements : List Statement) :
    (Plan.extend scope p statements).OnlyTells Event.IsPlain := by
  induction statements generalizing scope p with
  | nil => exact Traced.onlyTells_pure p
  | cons s rest ih =>
    exact (Traced.onlyTells_ofExcept _).bind fun origin =>
      (Traced.onlyTells_ofExcept _).bind fun scope' =>
        (Traced.onlyTells_tell nofun).bind fun _ => ih scope' (p.addStatement origin s)

lemma plain_build (r : Recipe) : (Plan.build r).OnlyTells Event.IsPlain := by
  refine (plain_extend [] .empty r.statements).bind fun plan => ?_
  have hdead : ∀ e ∈ plan.deadSinks.map Event.deadSink, e.IsPlain := by
    intro e he
    obtain ⟨name, -, rfl⟩ := List.mem_map.mp he
    exact nofun
  have hwarned := (Traced.onlyTells_tellAll (ε := NamingError) hdead).bind fun _ =>
    Traced.onlyTells_pure plan
  dsimp only
  split
  · exact (Traced.onlyTells_fail _).bind fun _ => hwarned
  · exact hwarned

lemma plain_compile (text : String) : (compile text).OnlyTells Event.IsPlain :=
  (plain_readRecipe text).bind fun r => (plain_build r).mapError _

namespace Execution

lemma plain_applyActions (transforms : Transforms) (i : Nat) (rate : UInt32)
    (actions : List Action) (b : Buffer) :
    (applyActions transforms i rate actions b).OnlyTells Event.IsPlain := by
  induction actions generalizing b with
  | nil => exact Traced.onlyTells_pure b
  | cons a rest ih =>
    exact (Traced.onlyTells_tell nofun).bind fun _ => (Traced.onlyTells_ofExcept _).bind ih

lemma plain_runStatement (transforms : Transforms) (p : Progress) (q : PlannedStatement) :
    (runStatement transforms p q).OnlyTells Event.IsPlain := by
  unfold runStatement
  cases p.store.read q.origin with
  | none => exact Traced.onlyTells_fail _
  | some reading =>
    have hfreed : ∀ e ∈ reading.freed.toList.map Event.freed, e.IsPlain := by
      intro e he
      obtain ⟨what, -, rfl⟩ := List.mem_map.mp he
      exact nofun
    refine (Traced.onlyTells_tellAll hfreed).bind fun _ =>
      (plain_applyActions transforms _ _ q.actions _).bind fun b => ?_
    split
    · split
      · exact (Traced.onlyTells_tell nofun).bind fun _ => Traced.onlyTells_pure _
      · exact Traced.onlyTells_pure _
    · exact Traced.onlyTells_fail _

lemma plain_runFrom (transforms : Transforms) (p : Progress) (statements : List PlannedStatement) :
    (runFrom transforms p statements).OnlyTells Event.IsPlain := by
  induction statements generalizing p with
  | nil => exact Traced.onlyTells_pure p
  | cons q rest ih => exact (plain_runStatement transforms p q).bind ih

end Execution

lemma plain_execute (plan : Plan) (stems : StemMap Buffer) (transforms : Transforms) :
    (execute plan stems transforms).OnlyTells Event.IsPlain := by
  have hunread : ∀ e ∈ (Execution.unread stems plan.stemReaders).map Event.stemUnread,
      e.IsPlain := by
    intro e he
    obtain ⟨s, -, rfl⟩ := List.mem_map.mp he
    exact nofun
  exact (Traced.onlyTells_tell nofun).bind fun _ => (Traced.onlyTells_tellAll hunread).bind fun _ =>
    (Execution.plain_runFrom transforms _ plan.statements).bind fun p =>
      (Traced.onlyTells_tell nofun).bind fun _ => Traced.onlyTells_pure _

lemma Mix.plain_level (ceiling : Option Float32) (b : Buffer) :
    (level ceiling b).OnlyTells Event.IsPlain := by
  cases ceiling with
  | some c =>
    dsimp only [level]
    split
    · exact (Traced.onlyTells_tell nofun).bind fun _ => Traced.onlyTells_pure _
    · exact Traced.onlyTells_pure _
  | none =>
    dsimp only [level]
    split
    · exact (Traced.onlyTells_tell nofun).bind fun _ => Traced.onlyTells_pure _
    · exact Traced.onlyTells_pure _

lemma plain_mix (inputs : List NamedBuffer) (ceiling : Option Float32) :
    (mix inputs ceiling).OnlyTells Event.IsPlain := by
  cases inputs with
  | nil => exact Traced.onlyTells_fail _
  | cons first rest =>
    dsimp only [mix]
    split
    · exact Traced.onlyTells_fail _
    · exact (Traced.onlyTells_tell nofun).bind fun _ => (Mix.plain_level ceiling _).bind fun _ =>
        Traced.onlyTells_pure _

/-! ### Errors that a recipe with a plan rules out -/

/-- An error that no later stage makes of a recipe that compiles: one of the recipe itself, or one
of a plan that refers to nothing or saves nothing. -/
def Error.isRuledOut : Error → Bool
  | badRecipe _ | badNames _ | runtime (.missingSink _ _) | runtime .nothingToMix => true
  | _ => false

lemma Error.exitCode_eq_two_iff {e : Error} : e.exitCode = 2 ↔ e.isRecipeError := by
  cases e <;> simp [exitCode, isRecipeError]

lemma Error.isRuledOut_of_isRecipeError {e : Error} (h : e.isRecipeError) : e.isRuledOut := by
  cases e <;> first | rfl | cases h

/-- A computation that fails, if at all, with an error that is not ruled out. -/
def Spares {α : Type} (x : Except Error α) : Prop := ∀ e, x = .error e → ¬ e.isRuledOut

namespace Spares

variable {α β ε : Type}

lemma ok (a : α) : Spares (.ok a) := nofun

lemma error {e : Error} (h : ¬ e.isRuledOut) : Spares (.error e : Except Error α) := by
  rintro _ ⟨⟩
  exact h

lemma mapError {g : ε → Error} (hg : ∀ e, ¬ (g e).isRuledOut) (x : Except ε α) :
    Spares (x.mapError g) := by
  cases x with
  | error e => exact error (hg e)
  | ok a => exact ok a

lemma bind {x : Except Error α} {f : α → Except Error β} (hx : Spares x)
    (hf : ∀ a, x = .ok a → Spares (f a)) : Spares (x >>= f) := by
  cases x with
  | error e => exact error (hx e rfl)
  | ok a => exact hf a rfl

end Spares

lemma spares_decode (path : String) (bytes : Bytes) : Spares (Wave.decode path bytes) := by
  refine (Spares.mapError (g := .ofWaveFault _) (fun _ => Bool.false_ne_true) _).bind
    fun content _ => ?_
  dsimp only
  cases Layout.ofCount? content.format.channels with
  | none => exact .error Bool.false_ne_true
  | some layout =>
    cases content.format.kind? with
    | none => exact .error Bool.false_ne_true
    | some kind =>
      refine (Spares.mapError (g := .ofWaveFault _) (fun _ => Bool.false_ne_true) _).bind
        fun samples _ => ?_
      split
      · exact .error Bool.false_ne_true
      · refine .mapError (fun fault => ?_) _
        cases fault <;> exact Bool.false_ne_true

lemma spares_readStems (stems : StemMap Buffer) (files : List StemFile) :
    Spares (readStems stems files).result := by
  induction files generalizing stems with
  | nil => exact .ok stems
  | cons f files ih =>
    rw [readStems, Traced.result_bind_ok (Traced.result_tell _), Traced.result_bind]
    exact (spares_decode _ _).bind fun b _ => ih (stems.insert f.stem b)

lemma spares_loadStems (f : Files) (wanted : Option (List Stem)) (folder : String) :
    Spares (loadStems f wanted folder).result := by
  have hfind : Spares (findStems f wanted folder).result := by
    unfold findStems
    cases f.folder? folder with
    | none => exact .error Bool.false_ne_true
    | some children =>
      obtain ⟨first, hfirst⟩ := exists_firstOfEach []
        ((walk stemDepth folder children).filterMap (·.asStem? wanted))
      dsimp only
      rw [hfirst]
      exact .ok first
  rw [result_loadStems]
  exact hfind.bind fun files _ => spares_readStems ∅ files

section Plan

variable {r : Recipe} {plan : Plan} {stems : StemMap Buffer} {transforms : Transforms}
  {out : Output}

lemma spares_execute (h : Plan.ofRecipe r = .ok plan) (stems : StemMap Buffer)
    (transforms : Transforms) :
    Spares ((execute plan stems transforms).result.mapError Error.runtime) := by
  cases he : (execute plan stems transforms).result with
  | ok out => exact .ok out
  | error e =>
    refine .error ?_
    obtain ⟨i, q, p, -, -, hstop⟩ := Execution.exists_stopsAt h he
    rcases hstop with ⟨-, rfl⟩ | ⟨reading, -, a, -, c, -, hrejected⟩
    · cases horigin : q.origin with
      | stem s =>
        rw [Execution.missing, horigin]
        exact Bool.false_ne_true
      | sink name j =>
        have hevaluate := Execution.evaluate_eq_error h he
        rw [Execution.missing, horigin] at hevaluate
        exact absurd hevaluate (evaluate_ne_missingSink h stems transforms name q.index)
    · cases hrejected <;> exact Bool.false_ne_true

/-- A mix of something fails, if at all, for the sample rates. -/
lemma spares_mix {inputs : List NamedBuffer} (hne : inputs ≠ []) (ceiling : Option Float32) :
    Spares ((mix inputs ceiling).result.mapError Error.runtime) := by
  obtain ⟨first, rest, rfl⟩ := List.exists_cons_of_ne_nil hne
  cases hother : (first :: rest).find? (·.buffer.rate ≠ first.buffer.rate) with
  | some other =>
    rw [mix, hother]
    exact .error Bool.false_ne_true
  | none =>
    obtain ⟨track, htrack, -⟩ := exists_shaped_mix ceiling hother
    rw [htrack]
    exact .ok track

lemma sources_of_mix {inputs : List NamedBuffer} {ceiling : Option Float32} {track : Track}
    (h : (mix inputs ceiling).result = .ok track) : track.sources = inputs.map (·.name) := by
  cases inputs with
  | nil => cases h
  | cons first rest =>
    cases hother : (first :: rest).find? (·.buffer.rate ≠ first.buffer.rate) with
    | some other =>
      rw [mix, hother] at h
      cases h
    | none =>
      rw [mix, hother] at h
      dsimp only at h
      rw [Traced.result_bind_ok (Traced.result_tell _)] at h
      obtain ⟨leveled, -, htrack⟩ := Traced.result_bind_eq_ok_iff.mp h
      cases htrack
      rfl

/-- What is saved has the names of the saved sinks, in the order of the recipe. -/
lemma names_saved (h : Plan.ofRecipe r = .ok plan)
    (hout : (execute plan stems transforms).result = .ok out) :
    out.saved.map (·.name) = (r.statements.filter (·.sink.saved)).map (·.sink.name) := by
  obtain ⟨p, hrun, rfl⟩ := Execution.execute_eq_ok hout
  obtain ⟨planned, hplanned, rfl, -⟩ := Plan.resolves_of_ofRecipe h
  exact (Execution.released_runFrom h hrun).2.trans (Plan.saved_ofResolved hplanned.map_sink)

end Plan

/-! ### Renders -/

/-- What a render does once it has its stems, with any transforms and not only those of a bank. -/
def renderStems (plan : Plan) (transforms : Transforms) (ceiling : Option Float32) (input : String)
    (stems : StemMap Buffer) : Traced Event Error Rendered := do
  Traced.tell (.separated stems.size input)
  let output ← (execute plan stems transforms).mapError .runtime
  let track ← (mix output.saved ceiling).mapError .runtime
  return ⟨track, output.stats, plan.statements.length⟩

/-- A render with any separator and any transforms. -/
def renderWith (separator : Separator) (transforms : Transforms) (ceiling : Option Float32)
    (text input : String) : Traced Event Error Rendered := do
  let plan ← compile text
  Traced.tell (.compiled plan.statements.length plan.saved)
  Traced.tell (.separating input)
  let stems ← separator input
  renderStems plan transforms ceiling input stems

lemma Renderer.render_eq (r : Renderer) (text input : String) :
    r.render text input =
      renderWith r.separator r.bank.apply r.settings.mixCeiling text input := rfl

section Render

variable {separator : Separator} {transforms : Transforms} {ceiling : Option Float32}
  {text input : String} {r : Recipe} {plan : Plan}

lemma plain_renderStems (plan : Plan) (transforms : Transforms) (ceiling : Option Float32)
    (input : String) (stems : StemMap Buffer) :
    (renderStems plan transforms ceiling input stems).OnlyTells Event.IsPlain :=
  (Traced.onlyTells_tell nofun).bind fun _ => ((plain_execute plan stems transforms).mapError _).bind
    fun output => ((plain_mix output.saved ceiling).mapError _).bind fun _ =>
      Traced.onlyTells_pure _

lemma events_renderWith (hplan : (compile text).result = .ok plan) (separator : Separator)
    (transforms : Transforms) (ceiling : Option Float32) (input : String) :
    ∃ later, (∀ e ∈ later, e.IsPlain) ∧
      (renderWith separator transforms ceiling text input).events = (compile text).events ++
        [.compiled plan.statements.length plan.saved, .separating input] ++
        (separator input).events ++ later := by
  rw [renderWith, Traced.events_bind_ok hplan, Traced.events_bind_ok (Traced.result_tell _),
    Traced.events_bind_ok (Traced.result_tell _)]
  cases hstems : (separator input).result with
  | error e =>
    refine ⟨[], nofun, ?_⟩
    rw [Traced.events_bind_error hstems]
    simp
  | ok stems =>
    refine ⟨_, plain_renderStems plan transforms ceiling input stems, ?_⟩
    rw [Traced.events_bind_ok hstems]
    simp

lemma result_renderWith (hplan : (compile text).result = .ok plan) (separator : Separator)
    (transforms : Transforms) (ceiling : Option Float32) (input : String) :
    (renderWith separator transforms ceiling text input).result =
      (separator input).result >>= fun stems =>
        (execute plan stems transforms).result.mapError Error.runtime >>= fun output =>
          (mix output.saved ceiling).result.mapError Error.runtime >>= fun track =>
            .ok ⟨track, output.stats, plan.statements.length⟩ := by
  simp only [renderWith, renderStems, Traced.result_bind_ok hplan, Traced.result_bind,
    Traced.result_tell]
  rfl

lemma spares_renderWith (hplan : Plan.ofRecipe r = .ok plan) (htext : Recipe.ofText text = .ok r)
    (hseparator : Spares (separator input).result) (transforms : Transforms)
    (ceiling : Option Float32) :
    Spares (renderWith separator transforms ceiling text input).result := by
  rw [result_renderWith (compile_eq_ok_iff.mpr ⟨r, htext, hplan⟩)]
  refine hseparator.bind fun stems _ => (spares_execute hplan stems transforms).bind
    fun output hout => ?_
  have hne : output.saved ≠ [] := by
    cases he : (execute plan stems transforms).result with
    | error e =>
      rw [he] at hout
      cases hout
    | ok out =>
      rw [he] at hout
      cases hout
      exact Execution.saved_ne_nil hplan he
  exact (spares_mix hne ceiling).bind fun track _ => .ok _

/-- The stages of a render that succeeds. -/
lemma stages_of_renderWith {d : Rendered}
    (hd : (renderWith separator transforms ceiling text input).result = .ok d) :
    ∃ plan stems out, (compile text).result = .ok plan ∧ (separator input).result = .ok stems ∧
      (execute plan stems transforms).result = .ok out ∧
      (mix out.saved ceiling).result = .ok d.track ∧ d.stats = out.stats := by
  obtain ⟨plan, hplan, hd⟩ := Traced.result_bind_eq_ok_iff.mp hd
  rw [Traced.result_bind_ok (Traced.result_tell _),
    Traced.result_bind_ok (Traced.result_tell _)] at hd
  obtain ⟨stems, hstems, hd⟩ := Traced.result_bind_eq_ok_iff.mp hd
  rw [renderStems, Traced.result_bind_ok (Traced.result_tell _)] at hd
  obtain ⟨out, hout, hd⟩ := Traced.result_bind_eq_ok_iff.mp hd
  obtain ⟨track, htrack, hd⟩ := Traced.result_bind_eq_ok_iff.mp hd
  rw [Traced.result_mapError, mapError_eq_ok_iff] at hout htrack
  cases hd
  exact ⟨plan, stems, out, hplan, hstems, hout, htrack, rfl⟩

lemma sources_of_renderWith {d : Rendered}
    (hd : (renderWith separator transforms ceiling text input).result = .ok d) :
    ∃ r, Recipe.ofText text = .ok r ∧
      d.track.sources = (r.statements.filter (·.sink.saved)).map (·.sink.name) := by
  obtain ⟨plan, stems, out, hplan, -, hout, htrack, -⟩ := stages_of_renderWith hd
  obtain ⟨r, htext, hr⟩ := compile_eq_ok_iff.mp hplan
  exact ⟨r, htext, by rw [sources_of_mix htrack, names_saved hr hout]⟩

end Render

/-! ### Commands -/

namespace CommandLine

variable {f : Files} {stamp : Stamp} {source : RecipeSource} {o : RenderOptions} {text : String}

lemma load_eq_pure (hload : (source.load f).result = .ok text) : source.load f = pure text := by
  have hevents := events_load f source
  generalize source.load f = x at hload hevents ⊢
  obtain ⟨events, result⟩ := x
  subst hevents hload
  rfl

lemma result_compileText (text : String) :
    (compileText text).result = (compile text).result.mapError .error := by
  rw [compileText, result_withExcerpt]
  rfl

lemma exitCode_of_compile {e : Error} (he : (compile text).result = .error e) : e.exitCode = 2 := by
  rw [result_compile] at he
  cases hread : Recipe.ofText text with
  | error fault =>
    rw [hread] at he
    cases he
    rfl
  | ok r =>
    rw [hread] at he
    cases hplan : Plan.ofRecipe r with
    | error fault =>
      change (Plan.ofRecipe r).mapError Error.badNames = _ at he
      rw [hplan] at he
      cases he
      rfl
    | ok plan =>
      change (Plan.ofRecipe r).mapError Error.badNames = _ at he
      rw [hplan] at he
      cases he

/-- A wrong recipe ends a check with the error and an excerpt, and nothing else. -/
lemma run_check_of_error (hload : (source.load f).result = .ok text) {e : Error}
    (he : (compile text).result = .error e) :
    Command.run f stamp (.check source) = ⟨(compileText text).events, some (.error e), f⟩ := by
  have hcompile : (compileText text).result = .error (.error e) := by
    rw [result_compileText, he]
    rfl
  change Outcome.ofRun f (check f source) = _
  rw [check, load_eq_pure hload, pure_bind, Traced.bind_of_error hcompile]
  rfl

/-- A wrong recipe ends a render in the same way, whatever the settings and the stems are. -/
lemma run_render_of_error (hload : (source.load f).result = .ok text) {e : Error}
    (he : (compile text).result = .error e) (o : RenderOptions) :
    Command.run f stamp (.render source o) =
      ⟨(compileText text).events, some (.error e), f⟩ := by
  have hcompile : (compileText text).result = .error (.error e) := by
    rw [result_compileText, he]
    rfl
  change render f stamp source o = _
  unfold render
  rw [renderMix, load_eq_pure hload, pure_bind, Traced.bind_of_error hcompile]

lemma result_forM_say (lines : List String) : (lines.forM say).result = .ok () := by
  induction lines with
  | nil => rfl
  | cons line rest ih =>
    change (say line >>= fun _ => rest.forM say).result = _
    rw [say, Traced.result_bind_ok (Traced.result_tell _), ih]

lemma exitCode_check_of_ok (hload : (source.load f).result = .ok text) {plan : Plan}
    (hplan : (compile text).result = .ok plan) (stamp : Stamp) :
    (Command.run f stamp (.check source)).exitCode = 0 := by
  have hcompile : (compileText text).result = .ok plan := by
    rw [result_compileText, hplan]
    rfl
  have hresult : (check f source).result = .ok () := by
    rw [check, load_eq_pure hload, pure_bind, Traced.result_bind_ok hcompile]
    exact result_forM_say _
  change (Outcome.ofRun f (check f source)).exitCode = 0
  rw [Outcome.ofRun, hresult]
  rfl

lemma spares_validate (settings : Settings) : Spares settings.validate := by
  unfold Settings.validate
  split
  · exact .error Bool.false_ne_true
  · exact .ok settings

lemma spares_load (f : Files) (path : String) : Spares (Settings.load f path) := by
  unfold Settings.load
  split
  · refine (Spares.mapError (g := .ofFileFault) (fun _ => Bool.false_ne_true) _).bind
      fun text _ => ?_
    cases Settings.ofText? text with
    | none => exact .error Bool.false_ne_true
    | some s => exact spares_validate s
  · exact .error Bool.false_ne_true

lemma spares_settingsFrom (o : RenderOptions) (f : Files) : Spares (o.settingsFrom f) := by
  unfold RenderOptions.settingsFrom
  cases o.settings with
  | none => exact .ok _
  | some path => exact (spares_load f path).bind fun s _ => .ok _

lemma spares_new (separator : Separator) (settings : Settings) :
    Spares (Renderer.new separator settings) := by
  have hvalidate := spares_validate settings
  unfold Renderer.new
  cases h : settings.validate with
  | error e => exact .error (hvalidate e h)
  | ok s => exact .ok _

lemma spares_exportAudio (f : Files) (path : String) (depth : Nat) (b : Buffer) :
    Spares (f.exportAudio path depth b) := by
  unfold Files.exportAudio
  cases Wave.Depth.ofBits? depth with
  | none => exact .error Bool.false_ne_true
  | some d =>
    refine (Spares.mapError (g := .ofFileFault) (fun _ => Bool.false_ne_true) _).bind fun _ _ =>
      (Spares.mapError (g := .ofUnwritable) (fun fault => ?_) _).bind fun bytes _ =>
        .mapError (g := .ofFileFault) (fun _ => Bool.false_ne_true) _
    cases fault <;> exact Bool.false_ne_true

lemma spares_save (report : Report) (f : Files) (path : String) : Spares (report.save f path) :=
  .mapError (g := .ofFileFault) (fun _ => Bool.false_ne_true) _

lemma spares_renderToFile (f : Files) (wanted : Option (List Stem)) (bank : Bank)
    (settings : Settings) (stamp : Stamp) {plan : Plan} (hplan : (compile text).result = .ok plan)
    (input output : String) :
    Spares (Renderer.renderToFile ⟨loadStems f wanted, bank, settings⟩ f stamp text input
      output).result := by
  obtain ⟨r, htext, hr⟩ := compile_eq_ok_iff.mp hplan
  rw [Renderer.renderToFile, Traced.result_bind_ok (Traced.result_tell _), Traced.result_bind]
  refine (spares_renderWith hr htext (spares_loadStems f wanted input) _ _).bind fun d _ => ?_
  rw [Traced.result_bind]
  refine (spares_exportAudio f output _ _).bind fun written _ => ?_
  rw [Traced.result_bind]
  refine (Spares.mapError (g := .ofFileFault) (fun _ => Bool.false_ne_true) _).bind
    fun checksum _ => ?_
  exact .ok _

lemma not_ruledOut_of_renderMix (hload : (source.load f).result = .ok text) {plan : Plan}
    (hplan : (compile text).result = .ok plan) {failure : Failure}
    (h : (renderMix f stamp source o).result = .error failure) :
    ∃ e, failure = .error e ∧ ¬ e.isRuledOut := by
  have hcompile : (compileText text).result = .ok plan := by
    rw [result_compileText, hplan]
    rfl
  have hrun : ∀ x : Traced Event Error (Report × Files), (perform x).result = .error failure →
      Spares x.result → ∃ e, failure = .error e ∧ ¬ e.isRuledOut := by
    intro x hx hspares
    change x.result.mapError Failure.error = _ at hx
    cases he : x.result with
    | error e =>
      rw [he] at hx
      cases hx
      exact ⟨e, rfl, hspares e he⟩
    | ok done =>
      rw [he] at hx
      cases hx
  rw [renderMix, load_eq_pure hload, pure_bind, Traced.result_bind_ok hcompile] at h
  refine hrun _ h ?_
  rw [Traced.result_bind]
  refine (spares_settingsFrom o f).bind fun settings _ => ?_
  rw [Traced.result_bind]
  refine (spares_new _ settings).bind fun renderer hnew => ?_
  obtain ⟨rfl, -⟩ := Renderer.eq_of_new hnew
  rw [Traced.result_bind_ok (Traced.result_tell _)]
  exact spares_renderToFile f _ _ _ stamp hplan o.stems o.output

/-- Nothing that stops the render of a recipe that compiles is told like a wrong recipe. -/
lemma not_ruledOut_of_render (hload : (source.load f).result = .ok text) {plan : Plan}
    (hplan : (compile text).result = .ok plan) {failure : Failure}
    (h : (Command.run f stamp (.render source o)).failure = some failure) :
    ∃ e, failure = .error e ∧ ¬ e.isRuledOut := by
  change (render f stamp source o).failure = some failure at h
  unfold render at h
  dsimp only at h
  split at h
  · rename_i hmix
    cases h
    exact not_ruledOut_of_renderMix hload hplan hmix
  · split at h
    · cases h
    · split at h
      · rename_i e hsave
        cases h
        exact ⟨e, rfl, spares_save _ _ _ e hsave⟩
      · cases h

lemma exitCode_render_of_ok (hload : (source.load f).result = .ok text) {plan : Plan}
    (hplan : (compile text).result = .ok plan) (stamp : Stamp) (o : RenderOptions) :
    (Command.run f stamp (.render source o)).exitCode ≠ 2 := by
  unfold Outcome.exitCode
  cases h : (Command.run f stamp (.render source o)).failure with
  | none => exact nofun
  | some failure =>
    obtain ⟨e, rfl, he⟩ := not_ruledOut_of_render hload hplan h
    exact fun hexit => he (Error.isRuledOut_of_isRecipeError (Error.exitCode_eq_two_iff.mp hexit))

lemma exitCode_check_iff (hload : (source.load f).result = .ok text) (stamp : Stamp) :
    (Command.run f stamp (.check source)).exitCode = 2 ↔ ∃ e, (compile text).result = .error e := by
  cases h : (compile text).result with
  | error e =>
    rw [run_check_of_error hload h]
    exact iff_of_true (exitCode_of_compile h) ⟨e, rfl⟩
  | ok plan =>
    rw [exitCode_check_of_ok hload h]
    exact iff_of_false nofun nofun

lemma exitCode_render_iff (hload : (source.load f).result = .ok text) (stamp : Stamp)
    (o : RenderOptions) :
    (Command.run f stamp (.render source o)).exitCode = 2 ↔
      ∃ e, (compile text).result = .error e := by
  cases h : (compile text).result with
  | error e =>
    rw [run_render_of_error hload h]
    exact iff_of_true (exitCode_of_compile h) ⟨e, rfl⟩
  | ok plan => exact iff_of_false (exitCode_render_of_ok hload h stamp o) nofun

/-- The recipe comes first. A check and a render of a text end with exit code 2 exactly when the text
does not compile, and then both do the same, which neither the settings nor the stems have a part in,
and leave all files as they are. A render with any separator and any transforms asks for the stems
only once the recipe is compiled, and then once; it does not fail with an error that a compiled
recipe rules out, unless the separator does, and mixes what the recipe saves. -/
theorem recipe_errors_first :
    (∀ (f : Files) (stamp : Stamp) (source : RecipeSource) (o : RenderOptions) (text : String),
      (source.load f).result = .ok text →
      ((Command.run f stamp (.render source o)).exitCode = 2 ↔
        ∃ e, (compile text).result = .error e) ∧
      ((Command.run f stamp (.check source)).exitCode = 2 ↔
        ∃ e, (compile text).result = .error e) ∧
      ∀ e, (compile text).result = .error e →
        Command.run f stamp (.check source) = ⟨(compileText text).events, some (.error e), f⟩ ∧
        Command.run f stamp (.render source o) =
          ⟨(compileText text).events, some (.error e), f⟩) ∧
    (∀ (separator : Separator) (transforms : Transforms) (ceiling : Option Float32)
      (text input : String),
      (compile text).OnlyTells Event.IsPlain ∧
      (∀ e, (compile text).result = .error e →
        renderWith separator transforms ceiling text input =
          ⟨(compile text).events, .error e⟩) ∧
      ∀ plan, (compile text).result = .ok plan →
        (∃ later, (∀ e ∈ later, e.IsPlain) ∧
          (renderWith separator transforms ceiling text input).events = (compile text).events ++
            [.compiled plan.statements.length plan.saved, .separating input] ++
            (separator input).events ++ later) ∧
        (∀ e, (∀ e', (separator input).result = .error e' → ¬ e'.isRuledOut) →
          (renderWith separator transforms ceiling text input).result = .error e →
          ¬ e.isRuledOut) ∧
        ∀ d, (renderWith separator transforms ceiling text input).result = .ok d →
          ∃ r, Recipe.ofText text = .ok r ∧
            d.track.sources = (r.statements.filter (·.sink.saved)).map (·.sink.name)) ∧
    ∀ (renderer : Renderer) (text input : String), renderer.render text input =
      renderWith renderer.separator renderer.bank.apply renderer.settings.mixCeiling text input := by
  refine ⟨fun f stamp source o text hload => ?_,
    fun separator transforms ceiling text input => ⟨plain_compile text, fun e he => ?_,
      fun plan hplan => ?_⟩, Renderer.render_eq⟩
  · exact ⟨exitCode_render_iff hload stamp o, exitCode_check_iff hload stamp,
      fun e he => ⟨run_check_of_error hload he, run_render_of_error hload he o⟩⟩
  · exact Traced.bind_of_error he _
  · obtain ⟨r, htext, hr⟩ := compile_eq_ok_iff.mp hplan
    exact ⟨events_renderWith hplan separator transforms ceiling input, fun e hseparator he =>
      spares_renderWith hr htext hseparator transforms ceiling e he,
      fun d hd => sources_of_renderWith hd⟩

def lateVocalsPlan : Plan :=
  ⟨[⟨0, .stem .vocals, [.late], ⟨"v", true⟩, 0⟩], { vocals := some 1 }⟩

/-- A recipe that saves nothing, and options that lead to no settings and no stems. -/
theorem recipe_errors_first_nothingSaved :
    let options : RenderOptions := ⟨"nowhere", "mix.wav", some "none.json", none, false, none⟩
    let separator : Separator := fun _ => pure { vocals := some ⟨[[0]], 8000⟩ }
    let rendered := renderWith separator (fun _ b => .ok b) none "vocals -> late -> save(v);" "song"
    (compile "vocals -> v;").result = .error (.badNames .emptyOutput) ∧
    Command.run .empty ⟨"", "", 0⟩ (.check (.text "vocals -> v;")) =
      ⟨(compileText "vocals -> v;").events, some (.error (.badNames .emptyOutput)), .empty⟩ ∧
    Command.run .empty ⟨"", "", 0⟩ (.render (.text "vocals -> v;") options) =
      ⟨(compileText "vocals -> v;").events, some (.error (.badNames .emptyOutput)), .empty⟩ ∧
    (Command.run .empty ⟨"", "", 0⟩ (.render (.text "vocals -> save(v);") options)).exitCode ≠ 2 ∧
    ∃ d r, rendered.result = .ok d ∧ Recipe.ofText "vocals -> late -> save(v);" = .ok r ∧
      d.track.sources = (r.statements.filter (·.sink.saved)).map (·.sink.name) := by
  intro options separator rendered
  have hwrong : (compile "vocals -> v;").result = .error (.badNames .emptyOutput) := by decide
  obtain ⟨-, -, hrun⟩ := recipe_errors_first.1 .empty ⟨"", "", 0⟩ (.text "vocals -> v;") options
    "vocals -> v;" rfl
  obtain ⟨hexit, -, -⟩ := recipe_errors_first.1 .empty ⟨"", "", 0⟩ (.text "vocals -> save(v);")
    options "vocals -> save(v);" rfl
  obtain ⟨d, hd⟩ : ∃ d, rendered.result = .ok d := by
    have hnames : rendered.result.map (·.track.sources) = .ok ["v"] := by decide +kernel
    cases h : rendered.result with
    | error e =>
      rw [h] at hnames
      cases hnames
    | ok d => exact ⟨d, rfl⟩
  obtain ⟨r, hr, hsources⟩ := ((recipe_errors_first.2.1 separator (fun _ b => .ok b) none
    "vocals -> late -> save(v);" "song").2.2 lateVocalsPlan (by decide)).2.2 d hd
  obtain ⟨hcheck, hrender⟩ := hrun _ hwrong
  refine ⟨hwrong, hcheck, hrender, fun h => ?_, d, r, hd, hr, hsources⟩
  obtain ⟨e, he⟩ := hexit.mp h
  have hright : (compile "vocals -> save(v);").result = .ok vocalsOnlyPlan := by decide
  rw [hright] at he
  cases he

end CommandLine

end Remix
