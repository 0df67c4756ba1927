import Mathlib.Data.List.Basic
import Mathlib.Tactic.Common
import Remix.Proofs.Breakdown

/-!
# The stems that a plan requires

An execution looks only at the stems that its plan counts readers of. So a render may leave the
files of all others unread, as long as none of them would have stopped it.
-/

namespace Remix

/-- Two tables that hold the same for each of some stems. -/
def StemMap.AgreeOn {α : Type} (wanted : List Stem) (m m' : StemMap α) : Prop :=
  ∀ s ∈ wanted, m.get? s = m'.get? s

instance {α : Type} [DecidableEq α] (wanted : List Stem) (m m' : StemMap α) :
    Decidable (m.AgreeOn wanted m') :=
  inferInstanceAs (Decidable (∀ s ∈ wanted, m.get? s = m'.get? s))

namespace StemMap

variable {α : Type} {wanted : List Stem} {m m' : StemMap α} {s : Stem}

lemma mem_stems_of_get? {v : α} (h : m.get? s = some v) : s ∈ m.stems := by
  refine List.mem_filter.mpr ⟨s.mem_all, ?_⟩
  rw [contains, h]
  rfl

lemma AgreeOn.insert (h : m.AgreeOn wanted m') (s : Stem) (v : α) :
    (m.insert s v).AgreeOn wanted (m'.insert s v) := by
  intro t ht
  rw [StemMap.insert, StemMap.insert, get?_set, get?_set, h t ht]

lemma AgreeOn.insert_of_notMem (h : m.AgreeOn wanted m') (hs : s ∉ wanted) (v : α) :
    m.AgreeOn wanted (m'.insert s v) := by
  intro t ht
  have hne : s ≠ t := fun he => hs (he ▸ ht)
  rw [StemMap.insert, get?_set_of_ne m' _ hne, h t ht]

end StemMap

section Execution

variable {stems stems' : StemMap Buffer}

lemma Store.seed_congr {readers : StemMap Nat} (h : stems.AgreeOn readers.stems stems')
    (statements : Nat) : seed stems readers statements = seed stems' readers statements := by
  refine congrArg (fun slot : Stem → Option Slot => (⟨statements, .ofFn slot, [],
    (StemMap.ofFn slot).size, (StemMap.ofFn slot).size, []⟩ : Store)) (funext fun s => ?_)
  cases hs : readers.get? s with
  | none => cases stems.get? s <;> cases stems'.get? s <;> rfl
  | some n => rw [h s (StemMap.mem_stems_of_get? hs)]

lemma execute_congr {plan : Plan} (h : stems.AgreeOn plan.requiredStems stems')
    (transforms : Transforms) :
    (execute plan stems transforms).result = (execute plan stems' transforms).result := by
  simp only [execute, Traced.result_bind, Traced.result_tell, Traced.result_tellAll,
    Execution.Progress.start, Store.seed_congr h]

end Execution

/-- The files in a folder that are named for stems. -/
def Files.stemFiles (f : Files) (folder : String) : List StemFile :=
  (walk stemDepth folder ((f.folder? folder).getD [])).filterMap (·.asStem? none)

/-- Every file in a folder that is named for a stem can be read. -/
def Files.StemsDecode (f : Files) (folder : String) : Prop :=
  ∀ g ∈ f.stemFiles folder, ∃ b, Wave.decode g.path g.content = .ok b

section Folder

variable {wanted : List Stem} {found files : List StemFile}

lemma filterMap_asStem? (wanted : List Stem) (files : List NamedFile) :
    files.filterMap (·.asStem? (some wanted)) =
      (files.filterMap (·.asStem? none)).filter (·.stem ∈ wanted) := by
  rw [List.filter_filterMap]
  refine List.filterMap_congr fun f _ => ?_
  unfold NamedFile.asStem?
  cases stemOfFileName? f.name with
  | none => rfl
  | some s => by_cases hs : s ∈ wanted <;> simp [hs, Option.filter]

/-- The filter may come before the choice of the first file, since it asks for the stem only. -/
lemma firstOfEach_filter (p : Stem → Bool) (found files : List StemFile) :
    (firstOfEach (found.filter (p ·.stem)) (files.filter (p ·.stem))).result =
      (firstOfEach found files).result.map (List.filter (p ·.stem)) := by
  induction files generalizing found with
  | nil => rfl
  | cons f files ih =>
    by_cases hf : p f.stem
    · have hfind : (found.filter (p ·.stem)).find? (·.stem = f.stem) =
          found.find? (·.stem = f.stem) := by
        rw [List.find?_filter]
        congr 1
        funext g
        by_cases hg : g.stem = f.stem
        · simp [hg, hf]
        · simp [hg]
      rw [List.filter_cons, if_pos hf, firstOfEach, hfind, firstOfEach]
      cases found.find? (·.stem = f.stem) with
      | some first =>
        dsimp only
        rw [Traced.result_bind_ok (Traced.result_tell _),
          Traced.result_bind_ok (Traced.result_tell _), ih]
      | none =>
        have hnext : found.filter (p ·.stem) ++ [f] = (found ++ [f]).filter (p ·.stem) := by
          simp [hf]
        dsimp only
        rw [hnext, ih]
    · rw [List.filter_cons, if_neg hf, firstOfEach]
      cases found.find? (·.stem = f.stem) with
      | some first =>
        dsimp only
        rw [Traced.result_bind_ok (Traced.result_tell _), ih]
      | none =>
        have hnext : found.filter (p ·.stem) = (found ++ [f]).filter (p ·.stem) := by
          simp [hf]
        dsimp only
        rw [hnext, ih]

/-- The first files are among those that are looked at. -/
lemma mem_of_firstOfEach {first : List StemFile} (h : (firstOfEach found files).result = .ok first) :
    ∀ g ∈ first, g ∈ found ∨ g ∈ files := by
  induction files generalizing found with
  | nil =>
    cases h
    exact fun g hg => .inl hg
  | cons f files ih =>
    rw [firstOfEach] at h
    intro g hg
    cases hfind : found.find? (·.stem = f.stem) with
    | some earlier =>
      rw [hfind] at h
      dsimp only at h
      rw [Traced.result_bind_ok (Traced.result_tell _)] at h
      exact (ih h g hg).imp_right (List.mem_cons_of_mem f)
    | none =>
      rw [hfind] at h
      have hmem := ih h g hg
      rw [List.mem_append, List.mem_singleton, or_assoc] at hmem
      rwa [List.mem_cons]

lemma result_readStems_cons {f : StemFile} {b : Buffer}
    (hb : Wave.decode f.path f.content = .ok b) (m : StemMap Buffer) (files : List StemFile) :
    (readStems m (f :: files)).result = (readStems (m.insert f.stem b) files).result := by
  rw [readStems, Traced.result_bind_ok (Traced.result_tell _), hb, Traced.ofExcept_ok_bind]

/-- Files of stems that are not wanted make no difference to the others, if they can be read. -/
lemma exists_readStems_filter {m m' : StemMap Buffer} (h : m.AgreeOn wanted m')
    (hdecode : ∀ f ∈ files, ∃ b, Wave.decode f.path f.content = .ok b) :
    ∃ needed all, (readStems m (files.filter (·.stem ∈ wanted))).result = .ok needed ∧
      (readStems m' files).result = .ok all ∧ needed.AgreeOn wanted all := by
  induction files generalizing m m' with
  | nil => exact ⟨m, m', rfl, rfl, h⟩
  | cons f files ih =>
    obtain ⟨b, hb⟩ := hdecode f List.mem_cons_self
    have hrest : ∀ g ∈ files, ∃ b, Wave.decode g.path g.content = .ok b :=
      fun g hg => hdecode g (List.mem_cons_of_mem f hg)
    rw [result_readStems_cons hb, List.filter_cons]
    by_cases hf : f.stem ∈ wanted
    · rw [if_pos (decide_eq_true hf), result_readStems_cons hb]
      exact ih (h.insert f.stem b) hrest
    · rw [if_neg (by simpa using hf)]
      exact ih (h.insert_of_notMem hf b) hrest

/-- Loading the wanted stems fails like loading all stems, or gives the same for the wanted ones. -/
inductive LoadedAlike (wanted : List Stem) :
    Except Error (StemMap Buffer) → Except Error (StemMap Buffer) → Prop where
  | error (e : Error) : LoadedAlike wanted (.error e) (.error e)
  | ok {needed all : StemMap Buffer} (h : needed.AgreeOn wanted all) :
      LoadedAlike wanted (.ok needed) (.ok all)

/-- The files that are looked for are those of the stems, or of the wanted ones among them. -/
lemma findStems_of_folder {f : Files} {folder : String} {children : List (String × Entry)}
    (h : f.folder? folder = some children) :
    findStems f none folder = firstOfEach [] (f.stemFiles folder) ∧
      ∀ wanted, findStems f (some wanted) folder =
        firstOfEach [] ((f.stemFiles folder).filter (·.stem ∈ wanted)) := by
  unfold findStems Files.stemFiles
  rw [h, Option.getD_some]
  refine ⟨rfl, fun wanted => ?_⟩
  dsimp only
  rw [filterMap_asStem?]

lemma result_loadStems (f : Files) (wanted : Option (List Stem)) (folder : String) :
    (loadStems f wanted folder).result =
      (findStems f wanted folder).result >>= fun files => (readStems ∅ files).result := by
  simp only [loadStems, Traced.result_bind, Traced.result_tell]
  refine congrArg _ (funext fun files => ?_)
  cases (readStems ∅ files).result <;> rfl

lemma loadedAlike_loadStems (f : Files) (wanted : List Stem) {folder : String}
    (h : f.StemsDecode folder) : LoadedAlike wanted (loadStems f (some wanted) folder).result
      (loadStems f none folder).result := by
  rw [result_loadStems, result_loadStems]
  cases hfolder : f.folder? folder with
  | none =>
    unfold findStems
    rw [hfolder]
    exact .error _
  | some children =>
    obtain ⟨hall, hwanted⟩ := findStems_of_folder hfolder
    have hfilter := firstOfEach_filter (· ∈ wanted) [] (f.stemFiles folder)
    rw [List.filter_nil] at hfilter
    rw [hall, hwanted, hfilter]
    cases hfirst : (firstOfEach [] (f.stemFiles folder)).result with
    | error e => exact .error e
    | ok first =>
      have hdecode : ∀ g ∈ first, ∃ b, Wave.decode g.path g.content = .ok b := by
        intro g hg
        rcases mem_of_firstOfEach hfirst g hg with hnone | hmem
        · cases hnone
        · exact h g hmem
      have hempty : (∅ : StemMap Buffer).AgreeOn wanted ∅ := fun _ _ => rfl
      obtain ⟨needed, all, hneeded, hall, hagree⟩ := exists_readStems_filter hempty hdecode
      change LoadedAlike wanted (readStems ∅ (first.filter (·.stem ∈ wanted))).result
        (readStems ∅ first).result
      rw [hneeded, hall]
      exact .ok hagree

end Folder

section Renderer

variable {plan : Plan} {separator separator' : Separator} {text input : String}

lemma Renderer.result_render (hplan : (compile text).result = .ok plan) (r : Renderer)
    (input : String) : (r.render text input).result =
      (r.separator input).result >>= fun stems =>
        (execute plan stems r.bank.apply).result.mapError Error.runtime >>= fun output =>
          (mix output.saved r.settings.mixCeiling).result.mapError Error.runtime >>= fun track =>
            .ok ⟨track, output.stats, plan.statements.length⟩ := by
  simp only [render, Traced.result_bind_ok hplan, Traced.result_bind, Traced.result_tell]
  rfl

/-- Of its stems a render sees no more than what the plan requires. -/
lemma Renderer.render_congr (hplan : (compile text).result = .ok plan)
    (h : LoadedAlike plan.requiredStems (separator input).result (separator' input).result)
    (bank : Bank) (settings : Settings) :
    (render ⟨separator, bank, settings⟩ text input).result =
      (render ⟨separator', bank, settings⟩ text input).result := by
  rw [result_render hplan, result_render hplan]
  dsimp only
  generalize (separator input).result = needed at h ⊢
  generalize (separator' input).result = all at h ⊢
  cases h with
  | error e => rfl
  | @ok needed all hagree =>
    change (execute plan needed bank.apply).result.mapError Error.runtime >>= _ =
      (execute plan all bank.apply).result.mapError Error.runtime >>= _
    rw [execute_congr hagree]

lemma Renderer.renderToFile_congr {bank : Bank} {settings : Settings}
    (h : (render ⟨separator, bank, settings⟩ text input).result =
      (render ⟨separator', bank, settings⟩ text input).result)
    (f : Files) (stamp : Stamp) (output : String) :
    (renderToFile ⟨separator, bank, settings⟩ f stamp text input output).result =
      (renderToFile ⟨separator', bank, settings⟩ f stamp text input output).result := by
  simp only [renderToFile, Traced.result_bind, h]

end Renderer

/-- The stems that a plan does not require cannot be observed: an execution gives the same without
them or with others in their place. So it is enough to load what the plan of a recipe requires, where
every file of a stem can be read. -/
theorem requiredStems_suffice :
    (∀ (plan : Plan) (stems stems' : StemMap Buffer) (transforms : Transforms),
      stems.AgreeOn plan.requiredStems stems' →
      (execute plan stems transforms).result = (execute plan stems' transforms).result) ∧
    ∀ (f : Files) (input text : String) (plan : Plan) (settings : Settings)
      (needed all : Renderer), f.StemsDecode input → (compile text).result = .ok plan →
      Renderer.new (loadStems f (some plan.requiredStems)) settings = .ok needed →
      Renderer.new (loadStems f none) settings = .ok all →
      (needed.render text input).result = (all.render text input).result ∧
      ∀ stamp output, (needed.renderToFile f stamp text input output).result =
        (all.renderToFile f stamp text input output).result := by
  refine ⟨fun plan stems stems' transforms h => execute_congr h transforms, ?_⟩
  intro f input text plan settings needed all hdecode hplan hneeded hall
  obtain ⟨rfl, -⟩ := Renderer.eq_of_new hneeded
  obtain ⟨rfl, -⟩ := Renderer.eq_of_new hall
  have hrender := Renderer.render_congr hplan
    (loadedAlike_loadStems f plan.requiredStems hdecode) settings.bank settings
  exact ⟨hrender, fun stamp output => Renderer.renderToFile_congr hrender f stamp output⟩

lemma Renderer.new_of_validate {settings : Settings} (h : settings.validate = .ok settings)
    (separator : Separator) :
    new separator settings = .ok ⟨separator, settings.bank, settings⟩ := by
  rw [new, h]
  rfl

/-- A wave file with one sample of silence at 8000 samples a second. -/
def silentWave : Bytes :=
  [0x52, 0x49, 0x46, 0x46, 40, 0, 0, 0, 0x57, 0x41, 0x56, 0x45, 0x66, 0x6d, 0x74, 0x20, 16, 0, 0, 0,
    3, 0, 1, 0, 0x40, 0x1F, 0, 0, 0, 0x7D, 0, 0, 4, 0, 32, 0, 0x64, 0x61, 0x74, 0x61, 4, 0, 0, 0,
    0, 0, 0, 0]

def drumsAndVocals : Files :=
  (Files.empty.addFile ["stems", "drums.wav"] silentWave).addFile ["stems", "vocals.wav"] silentWave

lemma folder_drumsAndVocals : drumsAndVocals.folder? "stems" =
    some [("drums.wav", .file silentWave), ("vocals.wav", .file silentWave)] := by
  rfl

lemma stemFiles_drumsAndVocals : drumsAndVocals.stemFiles "stems" =
    [⟨.drums, "stems/drums.wav", silentWave⟩, ⟨.vocals, "stems/vocals.wav", silentWave⟩] := by
  rw [Files.stemFiles, folder_drumsAndVocals, Option.getD_some, stemDepth, walk,
    List.mergeSort_of_pairwise (by decide)]
  decide

lemma stemsDecode_drumsAndVocals : drumsAndVocals.StemsDecode "stems" := by
  intro g hg
  rw [stemFiles_drumsAndVocals] at hg
  rcases List.mem_pair.mp hg with rfl | rfl
  · exact ⟨⟨[[0]], 8000⟩, by decide +kernel⟩
  · exact ⟨⟨[[0]], 8000⟩, by decide +kernel⟩

theorem requiredStems_suffice_vocalsOnly :
    let silence : Buffer := ⟨[[0]], 8000⟩
    let needed : Renderer :=
      ⟨loadStems drumsAndVocals (some vocalsOnlyPlan.requiredStems), ({} : Settings).bank, {}⟩
    let all : Renderer := ⟨loadStems drumsAndVocals none, ({} : Settings).bank, {}⟩
    (loadStems drumsAndVocals (some vocalsOnlyPlan.requiredStems) "stems").result =
      .ok { vocals := some silence } ∧
    (loadStems drumsAndVocals none "stems").result =
      .ok { drums := some silence, vocals := some silence } ∧
    (execute vocalsOnlyPlan { vocals := some silence } fun _ b => .ok b).result =
      (execute vocalsOnlyPlan { drums := some silence, vocals := some silence } fun _ b =>
        .ok b).result ∧
    drumsAndVocals.StemsDecode "stems" ∧
    (compile "vocals -> save(v);").result = .ok vocalsOnlyPlan ∧
    Renderer.new (loadStems drumsAndVocals (some vocalsOnlyPlan.requiredStems)) {} = .ok needed ∧
    Renderer.new (loadStems drumsAndVocals none) {} = .ok all ∧
    (needed.render "vocals -> save(v);" "stems").result =
      (all.render "vocals -> save(v);" "stems").result ∧
    ∀ stamp output,
      (needed.renderToFile drumsAndVocals stamp "vocals -> save(v);" "stems" output).result =
        (all.renderToFile drumsAndVocals stamp "vocals -> save(v);" "stems" output).result := by
  have hvalid : ({} : Settings).validate = .ok {} := by decide
  have hcompile : (compile "vocals -> save(v);").result = .ok vocalsOnlyPlan := by decide
  obtain ⟨hall, hwanted⟩ := findStems_of_folder folder_drumsAndVocals
  rw [stemFiles_drumsAndVocals] at hall hwanted
  have hneeded : (loadStems drumsAndVocals (some vocalsOnlyPlan.requiredStems) "stems").result =
      .ok { vocals := some ⟨[[0]], 8000⟩ } := by
    rw [result_loadStems, hwanted]
    decide +kernel
  have hloaded : (loadStems drumsAndVocals none "stems").result =
      .ok { drums := some ⟨[[0]], 8000⟩, vocals := some ⟨[[0]], 8000⟩ } := by
    rw [result_loadStems, hall]
    decide +kernel
  exact ⟨hneeded, hloaded,
    requiredStems_suffice.1 vocalsOnlyPlan _ _ _ (by decide), stemsDecode_drumsAndVocals, hcompile,
    Renderer.new_of_validate hvalid _, Renderer.new_of_validate hvalid _,
    requiredStems_suffice.2 drumsAndVocals "stems" "vocals -> save(v);" vocalsOnlyPlan {} _ _
      stemsDecode_drumsAndVocals hcompile (Renderer.new_of_validate hvalid _)
      (Renderer.new_of_validate hvalid _)⟩

end Remix
