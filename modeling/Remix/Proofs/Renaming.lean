import Mathlib.Logic.Equiv.Basic
import Mathlib.Tactic.Common
import Remix.Plan.Build
import Remix.Proofs.Checks

/-!
# Other names for sinks

The names of sinks only tie a source to the statement that it refers to. Here every name of a recipe
is replaced, by a map that gives no two names the same new one and leaves the names of stems alone.
Planning and executing then do exactly what they did, told with the new names. Both loops are
treated alike: each step goes with the renaming, and so does the run.
-/

namespace Remix

namespace Traced

variable {ν ν' ε ε' α α' β β' : Type} {g : ν → ν'} {h : ε → ε'}

/-- The same computation with its events, its failure and its result replaced. -/
def translate (g : ν → ν') (h : ε → ε') (k : α → α') (x : Traced ν ε α) : Traced ν' ε' α' :=
  ⟨x.events.map g, (x.result.mapError h).map k⟩

lemma translate_bind {k : α → α'} {l : β → β'} {f : α → Traced ν ε β}
    {f' : α' → Traced ν' ε' β'} (x : Traced ν ε α) (hf : ∀ a, f' (k a) = (f a).translate g h l) :
    x.translate g h k >>= f' = (x >>= f).translate g h l := by
  obtain ⟨events, result⟩ := x
  cases result with
  | error e => rfl
  | ok a =>
    change Traced.mk (events.map g ++ (f' (k a)).events) (f' (k a)).result = _
    rw [hf a]
    change _ = Traced.mk ((events ++ (f a).events).map g) _
    rw [List.map_append]
    rfl

lemma translate_fail (g : ν → ν') (h : ε → ε') (k : α → α') (e : ε) :
    (fail e : Traced ν ε α).translate g h k = fail (h e) := rfl

lemma translate_tell_bind (k : α → α') (event : ν) (x : Unit → Traced ν ε α) :
    (tell event >>= x).translate g h k = tell (g event) >>= fun a => (x a).translate g h k :=
  (translate_bind (g := g) (h := h) (k := id) (tell event) fun _ => rfl).symm

lemma translate_tellAll_bind (k : α → α') (events : List ν) (x : Unit → Traced ν ε α) :
    (tellAll events >>= x).translate g h k =
      tellAll (events.map g) >>= fun a => (x a).translate g h k :=
  (translate_bind (g := g) (h := h) (k := id) (tellAll events) fun _ => rfl).symm

lemma translate_ofExcept (g : ν → ν') (h : ε → ε') (k : α → α') (x : Except ε α) :
    (ofExcept x : Traced ν ε α).translate g h k = ofExcept ((x.mapError h).map k) := rfl

end Traced

/-! ### Renamed recipes, plans and executions -/

def Source.rename (f : String → String) : Source → Source
  | stem s => stem s
  | sink name => sink (f name)

def Sink.rename (f : String → String) (s : Sink) : Sink := { s with name := f s.name }

def Statement.rename (f : String → String) (s : Statement) : Statement :=
  ⟨s.source.rename f, s.actions, s.sink.rename f⟩

/-- The recipe in which every sink, and every source that is not a stem, has its new name. -/
def Recipe.rename (f : String → String) (r : Recipe) : Recipe := ⟨r.statements.map (·.rename f)⟩

def Origin.rename (f : String → String) : Origin → Origin
  | stem s => stem s
  | sink name i => sink (f name) i

def PlannedStatement.rename (f : String → String) (s : PlannedStatement) : PlannedStatement :=
  { s with origin := s.origin.rename f, sink := s.sink.rename f }

/-- The plan with the same statements, numbers and readers under new names. -/
def Plan.rename (f : String → String) (p : Plan) : Plan :=
  { p with statements := p.statements.map (·.rename f) }

def NamingError.rename (f : String → String) : NamingError → NamingError
  | unknownReference name i => unknownReference (f name) i
  | duplicateName name i first => duplicateName (f name) i first
  | reservedName name i => reservedName (f name) i
  | emptyOutput => emptyOutput

/-- Of the errors of an execution, only that of a missing sink names a sink. -/
def RuntimeError.rename (f : String → String) : RuntimeError → RuntimeError
  | missingSink name i => missingSink (f name) i
  | e => e

def Freed.rename (f : String → String) : Freed → Freed
  | stem s => stem s
  | workingCopy name => workingCopy (f name)
  | sink name => sink (f name)

def Event.rename (f : String → String) : Event → Event
  | planned i origin sink => planned i (origin.rename f) (sink.rename f)
  | deadSink name => deadSink (f name)
  | compiled n saved => compiled n (saved.map f)
  | freed what => freed (what.rename f)
  | e => e

def NamedBuffer.rename (f : String → String) (b : NamedBuffer) : NamedBuffer :=
  { b with name := f b.name }

def Stats.rename (f : String → String) (s : Stats) : Stats :=
  { s with released := s.released.map f }

def Output.rename (f : String → String) (out : Output) : Output :=
  ⟨out.saved.map (·.rename f), out.stats.rename f⟩

def SinkSlot.rename (f : String → String) (slot : SinkSlot) : SinkSlot :=
  { slot with name := f slot.name }

def Store.rename (f : String → String) (store : Store) : Store :=
  { store with
    sinks := store.sinks.map (Prod.map id (·.rename f))
    released := store.released.map f }

def Reading.rename (f : String → String) (r : Reading) : Reading :=
  ⟨r.buffer, r.store.rename f, r.freed.map (·.rename f)⟩

def Execution.Progress.rename (f : String → String) (p : Progress) : Progress :=
  { p with store := p.store.rename f, saved := p.saved.map (·.rename f) }

/-! ### Planning -/

section Planning

variable {f : String → String}

lemma ofName?_rename (hf : f.Injective) (hstem : ∀ s : Stem, f s.name = s.name) (name : String) :
    Stem.ofName? (f name) = Stem.ofName? name := by
  cases h : Stem.ofName? name with
  | some s =>
    rw [Stem.ofName?_eq_some_iff] at h ⊢
    rw [h, hstem]
  | none =>
    rw [Stem.ofName?_eq_none_iff] at h ⊢
    intro s hs
    rw [← hstem s] at hs
    exact h s (hf hs)

lemma rename_eq_stem_iff {source : Source} {s : Stem} :
    source.rename f = .stem s ↔ source = .stem s := by
  cases source <;> simp [Source.rename]

namespace Scope

def rename (f : String → String) (scope : Scope) : Scope := scope.map (Prod.map f id)

lemma lookup_rename (hf : f.Injective) (scope : Scope) (name : String) :
    (scope.rename f).lookup (f name) = scope.lookup name := by
  induction scope with
  | nil => rfl
  | cons entry rest ih =>
    obtain ⟨other, i⟩ := entry
    change List.lookup (f name) ((f other, i) :: rename f rest) = _
    rw [List.lookup_cons, List.lookup_cons, ih]
    by_cases h : name = other
    · simp [h]
    · have hb : (f name == f other) = false := by simpa using fun he => h (hf he)
      have hb' : (name == other) = false := by simpa using h
      rw [hb, hb']

lemma find_rename (hf : f.Injective) (hstem : ∀ s : Stem, f s.name = s.name) (scope : Scope)
    (i : Nat) (source : Source) : (scope.rename f).find i (source.rename f) =
      ((scope.find i source).mapError (·.rename f)).map (·.rename f) := by
  cases source with
  | stem s => rfl
  | sink name =>
    simp only [find, Source.rename, ofName?_rename hf hstem, lookup_rename hf]
    cases Stem.ofName? name with
    | some s => rfl
    | none => cases scope.lookup name <;> rfl

lemma define_rename (hf : f.Injective) (hstem : ∀ s : Stem, f s.name = s.name) (scope : Scope)
    (i : Nat) (source : Source) (name : String) :
    (scope.rename f).define i (source.rename f) (f name) =
      ((scope.define i source name).mapError (·.rename f)).map (·.rename f) := by
  have hadd : define.add (scope.rename f) i (f name) =
      ((define.add scope i name).mapError (·.rename f)).map (·.rename f) := by
    simp only [define.add, lookup_rename hf]
    cases scope.lookup name <;> rfl
  simp only [define, ofName?_rename hf hstem]
  cases Stem.ofName? name with
  | none => exact hadd
  | some s =>
    by_cases h : source = .stem s
    · simpa only [rename_eq_stem_iff, h, if_true] using hadd
    · simp only [rename_eq_stem_iff, h, if_false]
      rfl

end Scope

namespace Plan

lemma countReader_rename (p : Plan) (origin : Origin) :
    (p.rename f).countReader (origin.rename f) = (p.countReader origin).rename f := by
  cases origin with
  | stem s => rfl
  | sink name i =>
    simp only [countReader, Origin.rename, rename]
    congr 1
    apply List.ext_getElem?
    intro j
    simp only [List.getElem?_modify, List.getElem?_map]
    cases p.statements[j]? with
    | none => rfl
    | some q => by_cases h : i = j <;> simp [h, PlannedStatement.rename]

lemma addStatement_rename (p : Plan) (origin : Origin) (s : Statement) :
    (p.rename f).addStatement (origin.rename f) (s.rename f) =
      (p.addStatement origin s).rename f := by
  simp only [addStatement, countReader_rename]
  simp [rename, PlannedStatement.rename, Statement.rename]

@[simp] lemma length_statements_rename (p : Plan) :
    (p.rename f).statements.length = p.statements.length := by
  simp [rename]

lemma saved_rename (p : Plan) : (p.rename f).saved = p.saved.map f := by
  simp only [saved, rename, List.filter_map, List.map_map]
  rfl

lemma deadSinks_rename (p : Plan) : (p.rename f).deadSinks = p.deadSinks.map f := by
  simp only [deadSinks, rename, List.filter_map, List.map_map]
  rfl

lemma actionCount_rename (p : Plan) : (p.rename f).actionCount = p.actionCount := by
  simp only [actionCount, rename, List.flatMap_map]
  rfl

lemma extend_rename (hf : f.Injective) (hstem : ∀ s : Stem, f s.name = s.name) (scope : Scope)
    (p : Plan) (statements : List Statement) :
    extend (scope.rename f) (p.rename f) (statements.map (·.rename f)) =
      (extend scope p statements).translate (Event.rename f) (NamingError.rename f)
        (Plan.rename f) := by
  induction statements generalizing scope p with
  | nil => rfl
  | cons s rest ih =>
    simp only [List.map_cons, extend]
    rw [length_statements_rename]
    change Traced.ofExcept ((scope.rename f).find _ (s.source.rename f)) >>= _ = _
    rw [Scope.find_rename hf hstem, ← Traced.translate_ofExcept (Event.rename f)]
    refine Traced.translate_bind _ fun origin => ?_
    change Traced.ofExcept ((scope.rename f).define _ (s.source.rename f) (f s.sink.name)) >>= _ = _
    rw [Scope.define_rename hf hstem, ← Traced.translate_ofExcept (Event.rename f)]
    refine Traced.translate_bind _ fun scope' => ?_
    rw [addStatement_rename, ih, Traced.translate_tell_bind]
    rfl

/-- Planning goes with the renaming of a recipe, whether it succeeds or fails. -/
lemma build_rename (hf : f.Injective) (hstem : ∀ s : Stem, f s.name = s.name) (r : Recipe) :
    build (r.rename f) =
      (build r).translate (Event.rename f) (NamingError.rename f) (Plan.rename f) := by
  unfold build
  rw [show extend [] empty (r.rename f).statements = _ from
    extend_rename hf hstem [] empty r.statements]
  refine Traced.translate_bind _ fun plan => ?_
  rw [saved_rename, deadSinks_rename, List.isEmpty_map]
  cases plan.saved.isEmpty with
  | true => rfl
  | false =>
    have hevents : (plan.deadSinks.map f).map Event.deadSink =
        (plan.deadSinks.map Event.deadSink).map (Event.rename f) := by
      simp [Event.rename]
    simp only [Bool.false_eq_true, if_false]
    rw [hevents, Traced.translate_tellAll_bind]
    rfl

end Plan

end Planning

/-! ### Executing -/

section Executing

variable {f : String → String}

namespace Store

lemma lookup_rename (f : String → String) (sinks : List (Nat × SinkSlot)) (i : Nat) :
    (sinks.map (Prod.map id (·.rename f))).lookup i = (sinks.lookup i).map (·.rename f) := by
  induction sinks with
  | nil => rfl
  | cons entry rest ih =>
    obtain ⟨j, slot⟩ := entry
    rw [List.map_cons, Prod.map_apply, List.lookup_cons, List.lookup_cons, ih, id]
    cases i == j <;> rfl

lemma withoutSink_rename (f : String → String) (sinks : List (Nat × SinkSlot)) (i : Nat) :
    withoutSink (sinks.map (Prod.map id (·.rename f))) i =
      (withoutSink sinks i).map (Prod.map id (·.rename f)) := by
  simp only [withoutSink, List.filter_map]
  rfl

lemma release_rename (store : Store) (name : String) :
    (store.rename f).release (f name) = (store.release name).rename f := by
  simp [release, rename]

lemma readStem_rename (store : Store) (s : Stem) :
    (store.rename f).readStem s = (store.readStem s).map (·.rename f) := by
  simp only [readStem, rename, Option.map_map]
  congr 1
  funext slot
  dsimp only [Function.comp_apply]
  split <;> rfl

lemma readSink_rename (store : Store) (i : Nat) :
    (store.rename f).readSink i = (store.readSink i).map (·.rename f) := by
  simp only [readSink]
  rw [show (store.rename f).sinks = store.sinks.map (Prod.map id (·.rename f)) from rfl,
    lookup_rename, withoutSink_rename, Option.map_map, Option.map_map]
  congr 1
  funext slot
  simp only [Function.comp_apply, SinkSlot.rename]
  split
  · split
    · rfl
    · exact congrArg (fun st => Reading.mk slot.buffer st (some (.sink (f slot.name))))
        (release_rename ⟨store.statements, store.stems, withoutSink store.sinks i, store.live - 1,
          store.peak, store.released⟩ slot.name)
  · rfl

/-- A read gives the same buffer, and lets go of the same one. -/
lemma read_rename (store : Store) (origin : Origin) :
    (store.rename f).read (origin.rename f) = (store.read origin).map (·.rename f) := by
  cases origin with
  | stem s => exact readStem_rename store s
  | sink name i => exact readSink_rename store i

lemma hold_rename (store : Store) (i : Nat) (slot : SinkSlot) :
    (store.rename f).hold i (slot.rename f) = (store.hold i slot).rename f := by
  simp only [hold, rename, withoutSink_rename]
  rfl

lemma insert_rename (store : Store) (i : Nat) (name : String) (b : Buffer) (readers : Nat) :
    (store.rename f).insert i (f name) b readers = (store.insert i name b readers).rename f := by
  unfold insert
  split
  · exact release_rename store name
  · exact hold_rename store i ⟨⟨b, readers⟩, name, false⟩

lemma insertSaved_rename (store : Store) (i : Nat) (name : String) (b : Buffer) (readers : Nat) :
    (store.rename f).insertSaved i (f name) b readers =
      (store.insertSaved i name b readers).rename f := by
  unfold insertSaved
  split
  · rfl
  · exact hold_rename store i ⟨⟨b, readers⟩, name, true⟩

end Store

namespace Execution

lemma missing_rename (s : PlannedStatement) : missing (s.rename f) = (missing s).rename f := by
  simp only [missing, PlannedStatement.rename]
  cases s.origin <;> rfl

lemma rename_of_applyAction {transforms : Transforms} {i : Nat} {rate : UInt32} {a : Action}
    {b : Buffer} {e : RuntimeError} (h : applyAction transforms i rate a b = .error e) :
    e.rename f = e := by
  cases rejected_of_applyAction h <;> rfl

lemma applyActions_rename (transforms : Transforms) (i : Nat) (rate : UInt32)
    (actions : List Action) (b : Buffer) :
    (applyActions transforms i rate actions b).translate (Event.rename f) (RuntimeError.rename f)
      id = applyActions transforms i rate actions b := by
  induction actions generalizing b with
  | nil => rfl
  | cons a rest ih =>
    rw [applyActions, Traced.translate_tell_bind]
    cases h : applyAction transforms i rate a b with
    | error e =>
      simp only [Traced.ofExcept_error_bind, Traced.translate_fail, rename_of_applyAction h]
      rfl
    | ok c =>
      simp only [Traced.ofExcept_ok_bind, ih]
      rfl

lemma keep_rename (p : Progress) (s : PlannedStatement) (b : Buffer) :
    (p.rename f).keep (s.rename f) b = (p.keep s b).rename f := by
  unfold Progress.keep
  rw [show (s.rename f).sink.saved = s.sink.saved from rfl]
  split
  · simp only [Progress.rename, ← Store.insertSaved_rename, List.map_append]
    rfl
  · simp only [Progress.rename, ← Store.insert_rename]
    rfl

/-- One statement goes with the renaming. -/
lemma runStatement_rename (transforms : Transforms) (p : Progress) (s : PlannedStatement) :
    runStatement transforms (p.rename f) (s.rename f) =
      (runStatement transforms p s).translate (Event.rename f) (RuntimeError.rename f)
        (Progress.rename f) := by
  unfold runStatement
  rw [show (p.rename f).store.read (s.rename f).origin = _ from Store.read_rename p.store s.origin]
  cases p.store.read s.origin with
  | none => exact congrArg Traced.fail (missing_rename s)
  | some reading =>
    have hfreed : (reading.rename f).freed.toList.map Event.freed =
        (reading.freed.toList.map Event.freed).map (Event.rename f) := by
      cases h : reading.freed <;> simp [Reading.rename, h, Event.rename]
    simp only [Option.map_some]
    rw [hfreed, Traced.translate_tellAll_bind]
    congr 1
    funext _
    conv_lhs =>
      lhs
      change applyActions transforms s.index reading.buffer.rate s.actions reading.buffer
      rw [← applyActions_rename (f := f)]
    refine Traced.translate_bind _ fun b => ?_
    have hkeep := keep_rename (f := f) { p with store := reading.store } s b
    have hroom : (reading.rename f).store.hasRoom (s.rename f).index (s.rename f).readers =
        reading.store.hasRoom s.index s.readers := rfl
    have hdead : (s.rename f).isDead = s.isDead := rfl
    rw [hroom, hdead]
    cases reading.store.hasRoom s.index s.readers with
    | false => rfl
    | true =>
      cases s.isDead with
      | false => exact congrArg pure hkeep
      | true =>
        exact congrArg (fun q => Traced.tell (Event.freed (.sink (f s.sink.name))) >>= fun _ =>
          pure q) hkeep

/-- A run goes with the renaming, since each of its statements does. -/
lemma runFrom_rename (transforms : Transforms) (p : Progress) (statements : List PlannedStatement) :
    runFrom transforms (p.rename f) (statements.map (·.rename f)) =
      (runFrom transforms p statements).translate (Event.rename f) (RuntimeError.rename f)
        (Progress.rename f) := by
  induction statements generalizing p with
  | nil => rfl
  | cons s rest ih =>
    rw [List.map_cons, runFrom, runStatement_rename]
    exact Traced.translate_bind _ fun p' => ih p'

end Execution

open Execution in
/-- Executing goes with the renaming of a plan, whatever the stems are and the actions do. -/
lemma execute_rename (plan : Plan) (stems : StemMap Buffer) (transforms : Transforms) :
    execute (plan.rename f) stems transforms =
      (execute plan stems transforms).translate (Event.rename f) (RuntimeError.rename f)
        (Output.rename f) := by
  unfold execute
  rw [Plan.length_statements_rename, Plan.actionCount_rename]
  have hunread : ((unread stems plan.stemReaders).map Event.stemUnread).map (Event.rename f) =
      (unread stems plan.stemReaders).map Event.stemUnread := by
    simp [Event.rename]
  rw [Traced.translate_tell_bind]
  simp only [Traced.translate_tellAll_bind, hunread]
  congr 1
  funext _
  congr 1
  funext _
  rw [show runFrom transforms (.start stems (plan.rename f).stemReaders plan.statements.length)
    (plan.rename f).statements = _ from runFrom_rename transforms
      (.start stems plan.stemReaders plan.statements.length) plan.statements]
  refine Traced.translate_bind _ fun p => ?_
  rw [Traced.translate_tell_bind, show (p.rename f).saved.length = p.saved.length from
    List.length_map _]
  rfl

end Executing

/-- Sinks may have any names. Under names that are as different as before, and with those of stems
left alone, a recipe is refused for the same reason or has the same plan, and the plan runs as
before on all stems; only the names are the new ones. -/
theorem rename_agrees (r : Recipe) (f : String → String) (hf : f.Injective)
    (hstem : ∀ s : Stem, f s.name = s.name) :
    (∀ e, Plan.ofRecipe r = .error e → Plan.ofRecipe (r.rename f) = .error (e.rename f)) ∧
      (∀ plan, Plan.ofRecipe r = .ok plan → Plan.ofRecipe (r.rename f) = .ok (plan.rename f) ∧
        (plan.rename f).saved = plan.saved.map f ∧
        (plan.rename f).deadSinks = plan.deadSinks.map f ∧
        ∀ (stems : StemMap Buffer) (transforms : Transforms),
          execute (plan.rename f) stems transforms =
            (execute plan stems transforms).translate (Event.rename f) (RuntimeError.rename f)
              (Output.rename f)) ∧
      (Plan.build (r.rename f)).events = (Plan.build r).events.map (Event.rename f) := by
  have hbuild := Plan.build_rename hf hstem r
  have hresult : Plan.ofRecipe (r.rename f) =
      ((Plan.ofRecipe r).mapError (·.rename f)).map (·.rename f) :=
    congrArg Traced.result hbuild
  refine ⟨fun e he => ?_, fun plan hplan => ⟨?_, ?_⟩, congrArg Traced.events hbuild⟩
  · rw [hresult, he]
    rfl
  · rw [hresult, hplan]
    rfl
  · exact ⟨plan.saved_rename, plan.deadSinks_rename, execute_rename plan⟩

/-- A recipe with a sink that is read, and a dead one. -/
def duetRecipe : Recipe :=
  ⟨[⟨.stem .vocals, [.late], ⟨"voice", false⟩⟩, ⟨.sink "voice", [.sharp], ⟨"echo", true⟩⟩,
    ⟨.stem .drums, [], ⟨"spare", false⟩⟩]⟩

def duetPlan : Plan :=
  ⟨[⟨0, .stem .vocals, [.late], ⟨"voice", false⟩, 1⟩,
    ⟨1, .sink "voice" 0, [.sharp], ⟨"echo", true⟩, 0⟩,
    ⟨2, .stem .drums, [], ⟨"spare", false⟩, 0⟩], { drums := some 1, vocals := some 1 }⟩

theorem rename_agrees_duet :
    let f : String → String := Equiv.swap "voice" "spare"
    f.Injective ∧ (∀ s : Stem, f s.name = s.name) ∧ Plan.ofRecipe duetRecipe = .ok duetPlan ∧
      Plan.ofRecipe (duetRecipe.rename f) = .ok
        ⟨[⟨0, .stem .vocals, [.late], ⟨"spare", false⟩, 1⟩,
          ⟨1, .sink "spare" 0, [.sharp], ⟨"echo", true⟩, 0⟩,
          ⟨2, .stem .drums, [], ⟨"voice", false⟩, 0⟩], { drums := some 1, vocals := some 1 }⟩ ∧
      (duetPlan.rename f).deadSinks = ["voice"] ∧
      ∀ (stems : StemMap Buffer) (transforms : Transforms),
        execute (duetPlan.rename f) stems transforms =
          (execute duetPlan stems transforms).translate (Event.rename f) (RuntimeError.rename f)
            (Output.rename f) := by
  intro f
  have hf : f.Injective := (Equiv.swap "voice" "spare").injective
  have hstem : ∀ s : Stem, f s.name = s.name := by
    intro s
    apply Equiv.swap_apply_of_ne_of_ne <;> cases s <;> decide
  have hplan : Plan.ofRecipe duetRecipe = .ok duetPlan := by decide
  obtain ⟨hrenamed, -, hdead, hrun⟩ := (rename_agrees duetRecipe f hf hstem).2.1 duetPlan hplan
  refine ⟨hf, hstem, hplan, hrenamed.trans ?_, hdead.trans ?_, hrun⟩
  · decide
  · decide

end Remix
