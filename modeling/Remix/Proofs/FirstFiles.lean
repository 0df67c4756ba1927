import Mathlib.Tactic.Common
import Remix.Proofs.RequiredStems
import Remix.Proofs.Walks

/-!
# The first file of each stem

Of all files in a folder that are named for a stem the one is found that a walk meets first. Nothing
else decides: not the order in which folders list their entries, and not which other stems are
wanted.
-/

namespace Remix

/-- A file name that is the name of a stem, a point and `wav` in letters of any case. -/
def NamedFor (name : String) (s : Stem) : Prop :=
  ∃ extension : String, name = s.name ++ "." ++ extension ∧ extension.toLower = "wav"

lemma toLower_eq_iff {s : String} :
    s.toLower = "wav" ↔ s.toList.map Char.toLower = ['w', 'a', 'v'] := by
  have hmap : s.toLower.toList = s.toList.map Char.toLower := String.toList_map
  rw [← String.toList_inj, hmap]
  rfl

lemma stemOfFileName?_eq_some_iff {name : String} {s : Stem} :
    stemOfFileName? name = some s ↔ NamedFor name s := by
  unfold stemOfFileName?
  rw [List.span_eq_takeWhile_dropWhile]
  dsimp only
  constructor
  · intro h
    split at h
    · rename_i hwav
      have hname := Stem.ofName?_eq_some_iff.mp h
      have hsplit := List.takeWhile_append_dropWhile (p := (· ≠ '.')) (l := name.toList.reverse)
      have hpoint := List.head?_dropWhile_not (· ≠ '.') name.toList.reverse
      generalize name.toList.reverse.takeWhile (· ≠ '.') = extension at hwav hsplit
      generalize name.toList.reverse.dropWhile (· ≠ '.') = rest at hname hsplit hpoint
      refine ⟨String.ofList extension.reverse, ?_,
        toLower_eq_iff.mpr (by rwa [String.toList_ofList])⟩
      cases rest with
      | nil => exact absurd hname (by cases s <;> decide)
      | cons c rest =>
        have hc : c = '.' := of_not_not (of_decide_eq_false hpoint)
        have hreverse := congrArg List.reverse hsplit
        rw [List.reverse_reverse] at hreverse
        rw [← String.toList_inj, ← hreverse, ← hname, hc]
        simp
    · cases h
  · rintro ⟨extension, rfl, hwav⟩
    rw [toLower_eq_iff] at hwav
    have hletters : ∀ c ∈ extension.toList.reverse, decide (c ≠ '.') = true := by
      intro c hc
      have hlower := List.mem_map_of_mem (f := Char.toLower) (List.mem_reverse.mp hc)
      rw [hwav] at hlower
      refine decide_eq_true ?_
      rintro rfl
      exact absurd hlower (by decide)
    have hreverse : (s.name ++ "." ++ extension).toList.reverse =
        extension.toList.reverse ++ '.' :: s.name.toList.reverse := by simp
    rw [hreverse, List.takeWhile_append_of_pos hletters, List.dropWhile_append_of_pos hletters]
    simp [hwav]

/-- A file that is named for a stem, by the steps that lead to it from a folder. -/
structure StemPlace where
  stem : Stem
  steps : List String
  content : Bytes

namespace StemPlace

/-- The file at a place in the folder that a path leads to. -/
def toFile (folder : String) (p : StemPlace) : StemFile :=
  ⟨p.stem, p.steps.foldl childPath folder, p.content⟩

/-- There is such a file in a folder, one or two levels down. -/
structure IsIn (children : List (String × Entry)) (p : StemPlace) : Prop where
  levels : p.steps.length = 1 ∨ p.steps.length = 2
  file : (Entry.folder children).get? p.steps = some (.file p.content)
  named : ∃ name ∈ p.steps.getLast?, NamedFor name p.stem

/-- There is such a file, and it is met before any other of the stem. -/
def IsFirst (children : List (String × Entry)) (p : StemPlace) : Prop :=
  p.IsIn children ∧
    ∀ q, q.IsIn children → q.stem = p.stem → q = p ∨ MetBefore p.steps q.steps

end StemPlace

/-- The files in a folder that are named for stems, as a walk meets them. -/
def stemPlaces (children : List (String × Entry)) : List StemPlace :=
  (walkSteps stemDepth children).filterMap fun (steps, content) =>
    (stemOfFileName? (steps.getLastD "")).map (⟨·, steps, content⟩)

section Places

variable {children : List (String × Entry)} {p : StemPlace}

lemma stemFiles_eq {f : Files} {folder : String} (h : f.folder? folder = some children) :
    f.stemFiles folder = (stemPlaces children).map (·.toFile folder) := by
  rw [Files.stemFiles, h, Option.getD_some, walk_eq, stemPlaces, List.filterMap_map,
    List.map_filterMap]
  refine List.filterMap_congr fun p _ => ?_
  obtain ⟨steps, content⟩ := p
  simp only [Function.comp_apply, NamedFile.asStem?]
  cases stemOfFileName? (steps.getLastD "") <;> rfl

lemma getLast?_eq_some_getLastD {steps : List String} (h : steps ≠ []) :
    steps.getLast? = some (steps.getLastD "") := by
  rw [List.getLastD_eq_getLast?, List.getLast?_eq_some_getLast h, Option.getD_some]

lemma mem_stemPlaces (h : DistinctNames stemDepth children) :
    p ∈ stemPlaces children ↔ p.IsIn children := by
  rw [stemPlaces, List.mem_filterMap]
  constructor
  · rintro ⟨⟨steps, content⟩, hmem, hstem⟩
    obtain ⟨hne, hlength, hfile⟩ := (mem_walkSteps h).mp hmem
    obtain ⟨s, hs, rfl⟩ := Option.map_eq_some_iff.mp hstem
    have hpos := List.length_pos_of_ne_nil hne
    refine ⟨?_, hfile, steps.getLastD "", getLast?_eq_some_getLastD hne,
      stemOfFileName?_eq_some_iff.mp hs⟩
    change steps.length ≤ 2 at hlength
    dsimp only
    omega
  · rintro ⟨hlevels, hfile, name, hname, hnamed⟩
    have hne : p.steps ≠ [] := by
      rw [← List.length_pos_iff]
      omega
    rw [getLast?_eq_some_getLastD hne] at hname
    cases hname
    refine ⟨(p.steps, p.content), (mem_walkSteps h).mpr ⟨hne, ?_, hfile⟩, ?_⟩
    · change p.steps.length ≤ 2
      omega
    · dsimp only
      rw [stemOfFileName?_eq_some_iff.mpr hnamed]
      rfl

lemma pairwise_stemPlaces (h : DistinctNames stemDepth children) :
    (stemPlaces children).Pairwise fun p q => MetBefore p.steps q.steps := by
  refine (pairwise_walkSteps h).filterMap _ ?_
  intro (steps, content) (steps', content') hbefore p hp q hq
  obtain ⟨s, -, rfl⟩ := Option.map_eq_some_iff.mp hp
  obtain ⟨s', -, rfl⟩ := Option.map_eq_some_iff.mp hq
  exact hbefore

/-- Of the files of a stem the first in the list is the one that is met before any other. -/
lemma find?_stemPlaces (h : DistinctNames stemDepth children) :
    (stemPlaces children).find? (·.stem = p.stem) = some p ↔ p.IsFirst children := by
  have hpairwise := pairwise_stemPlaces h
  rw [List.find?_eq_some_iff_append]
  constructor
  · rintro ⟨-, before, after, hsplit, hbefore⟩
    have hp : p ∈ stemPlaces children := by
      rw [hsplit]
      exact List.mem_append_right _ List.mem_cons_self
    refine ⟨(mem_stemPlaces h).mp hp, fun q hq hstem => ?_⟩
    have hmem := (mem_stemPlaces h).mpr hq
    rw [hsplit] at hmem hpairwise
    rcases List.mem_append.mp hmem with hq | hq
    · exact absurd (hbefore q hq) (by simpa using hstem)
    · rcases List.mem_cons.mp hq with hq | hq
      · exact .inl hq
      · exact .inr ((List.pairwise_cons.mp (List.pairwise_append.mp hpairwise).2.1).1 q hq)
  · rintro ⟨hp, hfirst⟩
    obtain ⟨before, after, hsplit⟩ := List.append_of_mem ((mem_stemPlaces h).mpr hp)
    refine ⟨decide_eq_true rfl, before, after, hsplit, fun q hq => ?_⟩
    have hin : q.IsIn children := by
      rw [← mem_stemPlaces h, hsplit]
      exact List.mem_append_left _ hq
    rw [hsplit] at hpairwise
    have hmet := (List.pairwise_append.mp hpairwise).2.2 q hq p List.mem_cons_self
    by_contra hstem
    rcases hfirst q hin (by simpa using hstem) with rfl | hafter
    · exact hmet.irrefl
    · exact hmet.asymm hafter

/-- The first of each stem is taken, also if some have been taken before. -/
lemma exists_firstOfEach_places (folder : String) (found places : List StemPlace) :
    ∃ rest, (firstOfEach (found.map (·.toFile folder)) (places.map (·.toFile folder))).result =
        .ok ((found ++ rest).map (·.toFile folder)) ∧
      rest.Sublist places ∧
      ((found.map (·.stem)).Nodup → ((found ++ rest).map (·.stem)).Nodup) ∧
      ∀ s, (found ++ rest).find? (·.stem = s) = (found ++ places).find? (·.stem = s) := by
  induction places generalizing found with
  | nil =>
    refine ⟨[], ?_, List.Sublist.refl _, fun hfound => ?_, fun s => rfl⟩
    · rw [List.append_nil]
      rfl
    · rwa [List.append_nil]
  | cons p places ih =>
    have hfind : (found.map (·.toFile folder)).find? (·.stem = (p.toFile folder).stem) =
        (found.find? (·.stem = p.stem)).map (·.toFile folder) := List.find?_map
    rw [List.map_cons, firstOfEach, hfind]
    cases hp : found.find? (·.stem = p.stem) with
    | some first =>
      -- The file is passed over. No search comes as far as it.
      obtain ⟨rest, hresult, hsublist, hnodup, hsame⟩ := ih found
      rw [Option.map_some]
      dsimp only
      rw [Traced.result_bind_ok (Traced.result_tell _)]
      refine ⟨rest, hresult, hsublist.cons p, hnodup, fun s => ?_⟩
      rw [hsame, List.find?_append, List.find?_append, List.find?_cons]
      by_cases hs : p.stem = s
      · rw [← hs, hp, Option.some_or, Option.some_or]
      · rw [decide_eq_false hs]
    | none =>
      obtain ⟨rest, hresult, hsublist, hnodup, hsame⟩ := ih (found ++ [p])
      rw [List.map_append, List.append_assoc] at hresult
      simp only [List.append_assoc, List.singleton_append] at hnodup hsame
      refine ⟨p :: rest, hresult, hsublist.cons_cons p, fun hfound => hnodup ?_, hsame⟩
      rw [List.map_append, List.nodup_append]
      refine ⟨hfound, List.nodup_singleton _, ?_⟩
      rintro s hs _ hmem rfl
      obtain ⟨q, hq, rfl⟩ := List.mem_map.mp hs
      exact absurd (List.find?_eq_none.mp hp q hq) (by simpa using List.mem_singleton.mp hmem)

/-- A list without two places of one stem holds a place if it is the one for its stem. -/
lemma mem_iff_find? {places : List StemPlace} (h : (places.map (·.stem)).Nodup) :
    p ∈ places ↔ places.find? (·.stem = p.stem) = some p := by
  refine ⟨fun hp => ?_, List.mem_of_find?_eq_some⟩
  have hsome : (places.find? (·.stem = p.stem)).isSome := by
    rw [List.find?_isSome]
    exact ⟨p, hp, decide_eq_true rfl⟩
  obtain ⟨q, hq⟩ := Option.isSome_iff_exists.mp hsome
  have hstem : q.stem = p.stem := by simpa using List.find?_some hq
  rw [hq, List.inj_on_of_nodup_map h (List.mem_of_find?_eq_some hq) hp hstem]

/-- All that is found if every stem is wanted. -/
lemma exists_findStems {f : Files} {folder : String} (hfolder : f.folder? folder = some children)
    (h : DistinctNames stemDepth children) :
    ∃ found : List StemPlace, (findStems f none folder).result = .ok (found.map (·.toFile folder)) ∧
      (found.map (·.stem)).Nodup ∧ found.Pairwise (fun p q => MetBefore p.steps q.steps) ∧
      (∀ p, p ∈ found ↔ p.IsFirst children) ∧
      ∀ s, s ∈ found.map (·.stem) ↔ ∃ p : StemPlace, p.IsIn children ∧ p.stem = s := by
  obtain ⟨found, hresult, hsublist, hnodup, hsame⟩ :=
    exists_firstOfEach_places folder [] (stemPlaces children)
  rw [List.nil_append] at hresult hnodup
  simp only [List.nil_append] at hsame
  have hdistinct := hnodup List.nodup_nil
  refine ⟨found, ?_, hdistinct, (pairwise_stemPlaces h).sublist hsublist, fun p => ?_, fun s => ?_⟩
  · rw [(findStems_of_folder hfolder).1, stemFiles_eq hfolder]
    exact hresult
  · rw [mem_iff_find? hdistinct, hsame, find?_stemPlaces h]
  · rw [List.mem_map]
    constructor
    · rintro ⟨p, hp, rfl⟩
      exact ⟨p, (mem_stemPlaces h).mp (hsublist.subset hp), rfl⟩
    · rintro ⟨p, hp, rfl⟩
      have hsome : (found.find? (·.stem = p.stem)).isSome := by
        rw [hsame, List.find?_isSome]
        exact ⟨p, (mem_stemPlaces h).mpr hp, decide_eq_true rfl⟩
      obtain ⟨q, hq, hstem⟩ := List.find?_isSome.mp hsome
      exact ⟨q, hq, of_decide_eq_true hstem⟩

end Places

/-- Whether a stem is looked for: one of the wanted ones, or any if none are given. -/
def isWanted (wanted : Option (List Stem)) (s : Stem) : Bool := wanted.all (s ∈ ·)

/-- What is not wanted may as well be left out at the end. -/
lemma findStems_filter {f : Files} {folder : String} {children : List (String × Entry)}
    (h : f.folder? folder = some children) (wanted : Option (List Stem)) :
    (findStems f wanted folder).result =
      (findStems f none folder).result.map (List.filter (isWanted wanted ·.stem)) := by
  obtain ⟨hall, hsome⟩ := findStems_of_folder h
  cases wanted with
  | none =>
    have hkeep : (List.filter (isWanted none ·.stem) : List StemFile → List StemFile) = id :=
      funext fun files => List.filter_eq_self.mpr fun _ _ => rfl
    rw [hkeep, Except.map_id]
    rfl
  | some w =>
    rw [hsome, hall]
    exact firstOfEach_filter (· ∈ w) [] (f.stemFiles folder)

/-- The files of the stems in a folder: for each stem that is wanted, or for each if none are given,
the first one that a walk meets among those one or two levels down that are named for it. They are
in the order of the walk. Those that are not wanted make no difference to the others, nor does the
order in which the folder and its inner folders list their entries. -/
theorem findStems_first (f : Files) (folder : String) (children : List (String × Entry))
    (wanted : Option (List Stem)) (hfolder : f.folder? folder = some children)
    (hnames : DistinctNames stemDepth children) :
    ∃ found : List StemPlace,
      (findStems f wanted folder).result = .ok (found.map (·.toFile folder)) ∧
      (found.map (·.stem)).Nodup ∧ found.Pairwise (fun p q => MetBefore p.steps q.steps) ∧
      (∀ p, p ∈ found ↔ isWanted wanted p.stem ∧ p.IsFirst children) ∧
      (∀ s, s ∈ found.map (·.stem) ↔
        isWanted wanted s ∧ ∃ p : StemPlace, p.IsIn children ∧ p.stem = s) ∧
      (findStems f wanted folder).result =
        (findStems f none folder).result.map (List.filter (isWanted wanted ·.stem)) ∧
      ∀ (f' : Files) (children' : List (String × Entry)), f'.folder? folder = some children' →
        DistinctNames stemDepth children' →
        (∀ steps content, (Entry.folder children').get? steps = some (.file content) ↔
          (Entry.folder children).get? steps = some (.file content)) →
        findStems f' wanted folder = findStems f wanted folder := by
  obtain ⟨all, hresult, hnodup, hpairwise, hfirst, hstems⟩ := exists_findStems hfolder hnames
  have hfiltered := findStems_filter hfolder wanted
  have hsublist : (all.filter (isWanted wanted ·.stem)).Sublist all := List.filter_sublist
  refine ⟨all.filter (isWanted wanted ·.stem), ?_, hnodup.sublist (hsublist.map _),
    hpairwise.sublist hsublist, fun p => ?_, fun s => ?_, hfiltered, ?_⟩
  · rw [hfiltered, hresult, Except.map, List.filter_map]
    rfl
  · rw [List.mem_filter, hfirst, and_comm]
  · rw [← hstems]
    simp only [List.mem_map, List.mem_filter]
    constructor
    · rintro ⟨p, ⟨hp, hwanted⟩, rfl⟩
      exact ⟨hwanted, p, hp, rfl⟩
    · rintro ⟨hwanted, p, hp, rfl⟩
      exact ⟨p, ⟨hp, hwanted⟩, rfl⟩
  · intro f' children' hfolder' hnames' hsame
    unfold findStems
    rw [hfolder, hfolder']
    dsimp only
    rw [walk_eq, walk_eq, walkSteps_congr hnames hnames' hsame]

/-- The entries of a folder that holds the vocals twice, not in the order of their names. -/
def vocalsTwice : List (String × Entry) :=
  [("vocals.wav", .file [1]),
    ("song", .folder [("drums.WAV", .file [3]), ("vocals.wav", .file [2])])]

lemma distinctNames_vocalsTwice : DistinctNames stemDepth vocalsTwice := by
  refine ⟨by decide, fun name inner h => ?_⟩
  simp only [vocalsTwice, List.mem_cons, Prod.mk.injEq, reduceCtorEq, and_false, false_or,
    List.not_mem_nil, or_false, Entry.folder.injEq] at h
  obtain ⟨-, rfl⟩ := h
  exact ⟨by decide, fun _ _ _ => trivial⟩

theorem findStems_first_vocalsTwice :
    let f : Files := ⟨.folder [("stems", .folder vocalsTwice)], []⟩
    f.folder? "stems" = some vocalsTwice ∧ DistinctNames stemDepth vocalsTwice ∧
    (findStems f (some [.vocals]) "stems").result =
      .ok [⟨.vocals, "stems/song/vocals.wav", [2]⟩] := by
  intro f
  -- The same entries in the order of their names can be walked without sorting.
  have hnames : DistinctNames stemDepth vocalsTwice.reverse := by
    obtain ⟨hnodup, hinner⟩ := distinctNames_vocalsTwice
    refine ⟨by rwa [List.map_reverse, List.nodup_reverse], fun name inner h => ?_⟩
    exact hinner name inner (List.mem_reverse.mp h)
  have hsame : ∀ steps content,
      (Entry.folder vocalsTwice.reverse).get? steps = some (.file content) ↔
        (Entry.folder vocalsTwice).get? steps = some (.file content) := by
    intro steps content
    cases steps with
    | nil => exact iff_of_false nofun nofun
    | cons name rest =>
      simp only [get?_cons_eq_some_iff hnames.1, get?_cons_eq_some_iff distinctNames_vocalsTwice.1,
        List.mem_reverse]
  obtain ⟨-, -, -, -, -, -, -, halike⟩ :=
    findStems_first f "stems" vocalsTwice (some [.vocals]) rfl distinctNames_vocalsTwice
  have hwalk : walk stemDepth "stems" vocalsTwice.reverse =
      [⟨"stems/song/drums.WAV", "drums.WAV", [3]⟩, ⟨"stems/song/vocals.wav", "vocals.wav", [2]⟩,
        ⟨"stems/vocals.wav", "vocals.wav", [1]⟩] := by
    change walk 2 "stems" [("song", _), ("vocals.wav", _)] = _
    rw [walk, List.mergeSort_of_pairwise (by decide)]
    simp only [List.flatMap_cons, List.flatMap_nil, walk]
    rw [List.mergeSort_of_pairwise (by decide)]
    rfl
  refine ⟨rfl, distinctNames_vocalsTwice, ?_⟩
  rw [← halike ⟨.folder [("stems", .folder vocalsTwice.reverse)], []⟩ _ rfl hnames hsame]
  change (firstOfEach [] ((walk stemDepth "stems" vocalsTwice.reverse).filterMap _)).result = _
  rw [hwalk]
  rfl

end Remix
