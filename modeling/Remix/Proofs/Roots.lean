import Mathlib.Data.Set.Basic
import Remix.Proofs.Shapes

/-!
# Roots

The stems at the beginning of the chains of the saved sinks. With the standard transforms they
settle the rate, the width and the length of the mix, whatever is done on the way.
-/

namespace Remix

namespace Buffer

/-- A regular buffer at the common rate of `roots`, as wide as the widest and as long as the longest
of them. -/
structure Spans (track : Buffer) (roots : Set Buffer) : Prop where
  regular : track.IsRegular
  rate : ∀ b ∈ roots, track.rate = b.rate
  width : IsGreatest {n | ∃ b ∈ roots, b.channels.length = n} track.channels.length
  length : IsGreatest {n | ∃ b ∈ roots, b.length = n} track.length

variable {track : Buffer} {roots roots' : Set Buffer}

lemma measures_subset {f : Buffer → Nat} (hf : ∀ b c, b.SameShape c → f b = f c)
    (h : ∀ b ∈ roots, ∃ c ∈ roots', b.SameShape c) :
    {n | ∃ b ∈ roots, f b = n} ⊆ {n | ∃ b ∈ roots', f b = n} := by
  rintro n ⟨b, hb, rfl⟩
  obtain ⟨c, hc, hshape⟩ := h b hb
  exact ⟨c, hc, (hf b c hshape).symm⟩

/-- Only the shapes of the roots matter. -/
lemma Spans.of_sameShape (h : track.Spans roots) (hto : ∀ b ∈ roots, ∃ c ∈ roots', b.SameShape c)
    (hfrom : ∀ c ∈ roots', ∃ b ∈ roots, c.SameShape b) : track.Spans roots' := by
  have hmeasures : ∀ f : Buffer → Nat, (∀ b c, b.SameShape c → f b = f c) →
      {n | ∃ b ∈ roots, f b = n} = {n | ∃ b ∈ roots', f b = n} := fun f hf =>
    (measures_subset hf hto).antisymm (measures_subset hf hfrom)
  refine ⟨h.regular, fun c hc => ?_, ?_, ?_⟩
  · obtain ⟨b, hb, hshape⟩ := hfrom c hc
    rw [hshape.rate]
    exact h.rate b hb
  · rw [← hmeasures _ fun b c hshape => hshape.count]
    exact h.width
  · rw [← hmeasures _ fun b c hshape => hshape.length]
    exact h.length

end Buffer

section Mix

variable {inputs : List NamedBuffer}

/-- A mix fails for two rates; otherwise it has the rate of all its inputs and the length and width
that are reckoned beforehand. -/
lemma mix_cases (hne : inputs ≠ []) (ceiling : Option Float32) :
    (∃ e, (mix inputs ceiling).result = .error e ∧
      ∃ x ∈ inputs, ∃ y ∈ inputs, x.buffer.rate ≠ y.buffer.rate) ∨
    ∃ track rate, (mix inputs ceiling).result = .ok track ∧ (∀ x ∈ inputs, x.buffer.rate = rate) ∧
      track.buffer.SameShape ⟨Mix.sum inputs (Mix.longest inputs) (Mix.widest inputs), rate⟩ := by
  obtain ⟨first, rest, rfl⟩ := List.exists_cons_of_ne_nil hne
  cases hother : (first :: rest).find? (·.buffer.rate ≠ first.buffer.rate) with
  | some other =>
    have hrate : other.buffer.rate ≠ first.buffer.rate := by simpa using List.find?_some hother
    rw [mix, hother]
    exact .inl ⟨_, rfl, other, List.mem_of_find?_eq_some hother, first, List.mem_cons_self, hrate⟩
  | none =>
    have hrates : ∀ x ∈ first :: rest, x.buffer.rate = first.buffer.rate := by
      simpa using hother
    obtain ⟨track, htrack, hshape⟩ := exists_shaped_mix ceiling hother
    exact .inr ⟨track, _, htrack, hrates, hshape⟩

lemma mix_error_iff (hne : inputs ≠ []) (ceiling : Option Float32) :
    (∃ e, (mix inputs ceiling).result = .error e) ↔
      ∃ x ∈ inputs, ∃ y ∈ inputs, x.buffer.rate ≠ y.buffer.rate := by
  rcases mix_cases hne ceiling with ⟨e, he, hrates⟩ | ⟨track, rate, htrack, hrates, -⟩
  · exact iff_of_true ⟨e, he⟩ hrates
  · rw [htrack]
    refine iff_of_false ?_ ?_
    · rintro ⟨e, he⟩
      cases he
    · rintro ⟨x, hx, y, hy, hdiffer⟩
      exact hdiffer ((hrates x hx).trans (hrates y hy).symm)

lemma spans_mix (hne : inputs ≠ []) (h : ∀ x ∈ inputs, x.buffer.IsRegular)
    {ceiling : Option Float32} {track : Track} (hmix : (mix inputs ceiling).result = .ok track) :
    track.buffer.Spans {b | ∃ x ∈ inputs, x.buffer = b} := by
  rcases mix_cases hne ceiling with ⟨e, he, -⟩ | ⟨track', rate, htrack, hrates, hshape⟩
  · rw [he] at hmix
    cases hmix
  · rw [htrack] at hmix
    cases hmix
    have hregular : track.buffer.IsRegular := hshape.isRegular (Mix.isRegular_sum hne h rate)
    obtain ⟨hwidth, hlengths⟩ := Mix.lengths_sum inputs (Mix.longest inputs) (Mix.widest inputs)
    have hcount : track.buffer.channels.length = Mix.widest inputs := hshape.count.trans hwidth
    have hlength : track.buffer.length = Mix.longest inputs := by
      obtain ⟨c, hc⟩ := (Mix.isRegular_sum hne h rate).exists_channel
      rw [hshape.length, ← (Mix.isRegular_sum hne h rate).lengths c hc]
      exact hlengths c hc
    refine ⟨hregular, ?_, ?_, ?_⟩
    · rintro _ ⟨x, hx, rfl⟩
      rw [hshape.rate, hrates x hx]
    · rw [hcount]
      simpa using Mix.isGreatest_widest hne
    · rw [hlength]
      simpa using Mix.isGreatest_longest hne h

end Mix

/-- The saved sink of that name goes back to a stem that holds `b`. -/
def Recipe.SavesFrom (r : Recipe) (stems : StemMap Buffer) (name : String) (b : Buffer) : Prop :=
  ∃ s ∈ r.statements, s.sink = ⟨name, true⟩ ∧ ∃ root actions,
    Lineage r.statements s root actions ∧ stems.get? root = some b

/-- What is in the stems that the saved sinks go back to. -/
def Recipe.roots (r : Recipe) (stems : StemMap Buffer) : Set Buffer :=
  {b | ∃ name, r.SavesFrom stems name b}

/-- The sources and the sinks of a recipe, without what is done between them. -/
def Recipe.wiring (r : Recipe) : List (Source × Sink) :=
  r.statements.map fun s => (s.source, s.sink)

section Wiring

variable {r r' : Recipe} {stems : StemMap Buffer} {s : Statement} {root : Stem}
  {actions : List Action}

lemma Recipe.exists_statement_of_wiring (h : r'.wiring = r.wiring) (hs : s ∈ r.statements) :
    ∃ s' ∈ r'.statements, s'.source = s.source ∧ s'.sink = s.sink := by
  have hmem : (s.source, s.sink) ∈ r'.wiring := h ▸ List.mem_map_of_mem hs
  obtain ⟨s', hs', hsame⟩ := List.mem_map.mp hmem
  exact ⟨s', hs', congrArg Prod.fst hsame, congrArg Prod.snd hsame⟩

lemma Lineage.exists_of_wiring (h : r'.wiring = r.wiring)
    (hs : Lineage r.statements s root actions) :
    ∃ s' actions', Lineage r'.statements s' root actions' ∧ s'.sink = s.sink := by
  induction hs with
  | stem hs hsource =>
    obtain ⟨s', hs', hsource', hsink⟩ := Recipe.exists_statement_of_wiring h hs
    exact ⟨s', s'.actions, .stem hs' (hsource'.trans hsource), hsink⟩
  | sink hs hsource _ ih =>
    obtain ⟨t', actions', ht', htsink⟩ := ih
    obtain ⟨s', hs', hsource', hsink⟩ := Recipe.exists_statement_of_wiring h hs
    rw [hsource, ← htsink] at hsource'
    exact ⟨s', actions' ++ s'.actions, .sink hs' hsource' ht', hsink⟩

lemma Recipe.roots_subset_of_wiring (h : r'.wiring = r.wiring) :
    r.roots stems ⊆ r'.roots stems := by
  rintro b ⟨name, s, -, hsink, root, actions, hs, hb⟩
  obtain ⟨s', actions', hs', hsame⟩ := hs.exists_of_wiring h
  exact ⟨name, s', hs'.mem, hsame.trans hsink, root, actions', hs', hb⟩

end Wiring

section Standard

variable {r : Recipe} {plan : Plan} {stems : StemMap Buffer} {name : String} {b b' : Buffer}

lemma Recipe.SavesFrom.unique (h : Plan.ofRecipe r = .ok plan) (hb : r.SavesFrom stems name b)
    (hb' : r.SavesFrom stems name b') : b' = b := by
  obtain ⟨s, hs, hsink, root, actions, hroot, hget⟩ := hb
  obtain ⟨s', hs', hsink', root', actions', hroot', hget'⟩ := hb'
  cases eq_of_sink_name h s hs s' hs' (by rw [hsink, hsink'])
  obtain ⟨rfl, -⟩ := hroot.unique (eq_of_sink_name h) hroot'
  rw [hget] at hget'
  exact (Option.some.inj hget').symm

/-- An execution saves every sink that is to be saved. -/
lemma Execution.exists_saved_of_sink {transforms : Transforms} {out : Output}
    (h : Plan.ofRecipe r = .ok plan) (hout : (execute plan stems transforms).result = .ok out)
    {s : Statement} (hs : s ∈ r.statements) (hsaved : s.sink.saved) :
    ∃ x ∈ out.saved, x.name = s.sink.name := by
  obtain ⟨kept, hkept, hsavedEq, -⟩ := exists_evaluate h hout
  have hsinks : kept.map (·.sink) = r.statements.map (·.sink) := Evaluation.evaluateFrom_sinks hkept
  have hmem : s.sink ∈ kept.map (·.sink) := hsinks ▸ List.mem_map_of_mem hs
  obtain ⟨d, hd, hsink⟩ := List.mem_map.mp hmem
  refine ⟨⟨d.sink.name, d.buffer⟩, ?_, by rw [hsink]⟩
  rw [hsavedEq]
  refine List.mem_map.mpr ⟨d, List.mem_filter.mpr ⟨hd, ?_⟩, rfl⟩
  rw [hsink]
  exact hsaved

/-- What is saved has the shape of the stem that it goes back to. -/
lemma Execution.sameShape_of_saved {bank : Bank} {out : Output} (h : Plan.ofRecipe r = .ok plan)
    (hout : (execute plan stems bank.apply).result = .ok out) {x : NamedBuffer}
    (hx : x ∈ out.saved) : ∃ b, r.SavesFrom stems x.name b ∧ x.buffer.SameShape b := by
  obtain ⟨kept, hkept, hsaved, -⟩ := exists_evaluate h hout
  rw [hsaved] at hx
  obtain ⟨d, hd, hsink, hbuffer⟩ := Evaluation.mem_saved hx
  obtain ⟨s, root, actions, b, hs, hdsink, hroot, hshape⟩ :=
    Evaluation.goesBack_of_evaluateFrom (R := fun _ c start => c.SameShape start)
      Evaluation.sameShape_of_evaluateStatement (fun h h' => h'.trans h) (fun _ hs => hs)
      (fun _ hd => by cases hd) hkept d hd
  rw [hdsink] at hsink
  rw [hbuffer] at hshape
  exact ⟨b, ⟨s, hs.mem, hsink, root, actions, hs, hroot⟩, hshape⟩

lemma Execution.exists_saved_of_root {bank : Bank} {out : Output} (h : Plan.ofRecipe r = .ok plan)
    (hout : (execute plan stems bank.apply).result = .ok out) (hb : b ∈ r.roots stems) :
    ∃ x ∈ out.saved, x.buffer.SameShape b := by
  obtain ⟨name, hsaves⟩ := hb
  obtain ⟨s, hs, hsink, -⟩ := id hsaves
  obtain ⟨x, hx, hname⟩ := exists_saved_of_sink h hout hs (by rw [hsink])
  obtain ⟨c, hc, hshape⟩ := sameShape_of_saved h hout hx
  rw [hname, hsink] at hc
  rw [hsaves.unique h hc] at hshape
  exact ⟨x, hx, hshape⟩

lemma Execution.saved_ne_nil {transforms : Transforms} {out : Output}
    (h : Plan.ofRecipe r = .ok plan) (hout : (execute plan stems transforms).result = .ok out) :
    out.saved ≠ [] := by
  obtain ⟨-, -, -, s, hs, hsaved⟩ := Plan.resolves_of_ofRecipe h
  obtain ⟨x, hx, -⟩ := exists_saved_of_sink h hout hs hsaved
  exact List.ne_nil_of_mem hx

/-- The mix of what is saved fails where two of the stems that it goes back to differ in rate. -/
lemma Execution.mix_saved_error_iff {bank : Bank} {out : Output} (h : Plan.ofRecipe r = .ok plan)
    (hout : (execute plan stems bank.apply).result = .ok out) (ceiling : Option Float32) :
    (∃ e, (mix out.saved ceiling).result = .error e) ↔
      ∃ b ∈ r.roots stems, ∃ b' ∈ r.roots stems, b.rate ≠ b'.rate := by
  rw [mix_error_iff (saved_ne_nil h hout)]
  constructor
  · rintro ⟨x, hx, y, hy, hrates⟩
    obtain ⟨b, hb, hxb⟩ := sameShape_of_saved h hout hx
    obtain ⟨c, hc, hyc⟩ := sameShape_of_saved h hout hy
    rw [hxb.rate, hyc.rate] at hrates
    exact ⟨b, ⟨x.name, hb⟩, c, ⟨y.name, hc⟩, hrates⟩
  · rintro ⟨b, hb, c, hc, hrates⟩
    obtain ⟨x, hx, hxb⟩ := exists_saved_of_root h hout hb
    obtain ⟨y, hy, hyc⟩ := exists_saved_of_root h hout hc
    rw [← hxb.rate, ← hyc.rate] at hrates
    exact ⟨x, hx, y, hy, hrates⟩

lemma Execution.spans_mix_saved {bank : Bank} {out : Output} (h : Plan.ofRecipe r = .ok plan)
    (hstems : stems.AllRegular) (hout : (execute plan stems bank.apply).result = .ok out)
    {ceiling : Option Float32} {track : Track}
    (htrack : (mix out.saved ceiling).result = .ok track) :
    track.buffer.Spans (r.roots stems) := by
  have hspans := spans_mix (saved_ne_nil h hout) (isRegular_of_saved h hstems hout) htrack
  refine hspans.of_sameShape ?_ fun b hb => ?_
  · rintro _ ⟨x, hx, rfl⟩
    obtain ⟨b, hb, hshape⟩ := sameShape_of_saved h hout hx
    exact ⟨b, ⟨x.name, hb⟩, hshape⟩
  · obtain ⟨x, hx, hshape⟩ := exists_saved_of_root h hout hb
    exact ⟨x.buffer, ⟨x, hx, rfl⟩, hshape.symm⟩

/-- As long as the longest of the stems, the mix has samples if they have. -/
lemma Execution.isFilled_mix_saved {bank : Bank} {out : Output} (h : Plan.ofRecipe r = .ok plan)
    (hstems : stems.All Buffer.IsFilled) (hout : (execute plan stems bank.apply).result = .ok out)
    {ceiling : Option Float32} {track : Track}
    (htrack : (mix out.saved ceiling).result = .ok track) : track.buffer.IsFilled := by
  have hspans := spans_mix_saved h hstems.allRegular hout htrack
  obtain ⟨b, ⟨name, s, -, -, root, actions, -, hroot⟩, hlength⟩ := hspans.length.1
  refine ⟨hspans.regular, ?_⟩
  rw [← hlength]
  exact (hstems root b hroot).length_pos

end Standard

lemma Settings.two_le_pitchWindow {settings : Settings} (h : settings.validate = .ok settings) :
    2 ≤ settings.pitchWindow := by
  have hfault : settings.fault? = none := by
    unfold validate at h
    split at h
    · cases h
    · assumption
  have hwindow : ¬settings.pitchWindow < minPitchWindow := by
    intro hsmall
    rw [fault?, if_pos hsmall] at hfault
    split at hfault <;> cases hfault
  have hmin : 2 ≤ minPitchWindow := by decide
  exact hmin.trans (Nat.le_of_not_lt hwindow)

/-- What an execution with the standard transforms does with regular stems. -/
structure Execution.IsStandard (r : Recipe) (plan : Plan) (settings : Settings)
    (stems : StemMap Buffer) : Prop where
  /-- It stops for a missing stem, for a rate of zero or for a sample that is not finite only. -/
  fails : ∀ e, (execute plan stems settings.bank.apply).result = .error e → StandardFailure stems e
  /-- What it saves has the shape of the stem at the beginning of the chain. -/
  saved : ∀ out, (execute plan stems settings.bank.apply).result = .ok out → ∀ x ∈ out.saved,
    ∃ b, (∀ b', r.SavesFrom stems x.name b' ↔ b' = b) ∧ x.buffer.SameShape b
  /-- The mix fails for stems of two rates only. -/
  mix_fails : ∀ out, (execute plan stems settings.bank.apply).result = .ok out → ∀ ceiling,
    (∃ e, (mix out.saved ceiling).result = .error e) ↔
      ∃ b ∈ r.roots stems, ∃ b' ∈ r.roots stems, b.rate ≠ b'.rate
  /-- Its rate, width and length are those of the stems. -/
  mix_spans : ∀ out, (execute plan stems settings.bank.apply).result = .ok out →
    ∀ ceiling track, (mix out.saved ceiling).result = .ok track →
      track.buffer.Spans (r.roots stems)
  /-- The actions do not choose the stems. -/
  roots : ∀ r' : Recipe, r'.wiring = r.wiring → r'.roots stems = r.roots stems

/-- What the standard transforms leave of the stems: the shapes of the stems, which neither actions
nor settings choose, tell those of all that is saved and of the mix, and whether there is a mix. -/
theorem execute_standard (r : Recipe) (plan : Plan) (h : Plan.ofRecipe r = .ok plan)
    (settings : Settings) (hsettings : settings.validate = .ok settings) (stems : StemMap Buffer)
    (hstems : stems.AllRegular) : Execution.IsStandard r plan settings stems where
  fails e he := by
    have hevaluate := Execution.evaluate_eq_error h he
    have hwindow := Settings.two_le_pitchWindow hsettings
    rcases Evaluation.standardFailure_of_evaluateFrom hwindow hstems (fun _ hd => by cases hd)
      hevaluate with hstandard | ⟨name, i, rfl⟩
    · exact hstandard
    · exact absurd hevaluate (evaluate_ne_missingSink h stems _ name i)
  saved out hout x hx := by
    obtain ⟨b, hb, hshape⟩ := Execution.sameShape_of_saved h hout hx
    refine ⟨b, fun b' => ⟨hb.unique h, ?_⟩, hshape⟩
    rintro rfl
    exact hb
  mix_fails out hout ceiling := Execution.mix_saved_error_iff h hout ceiling
  mix_spans out hout ceiling track htrack := Execution.spans_mix_saved h hstems hout htrack
  roots r' hwiring := (Recipe.roots_subset_of_wiring hwiring.symm).antisymm
    (Recipe.roots_subset_of_wiring hwiring)

/-- A mono stem that is shifted on its way, and a stereo stem that is saved as it is. -/
def shiftedVocals : Recipe :=
  ⟨[⟨.stem .vocals, [.late], ⟨"slow", false⟩⟩, ⟨.sink "slow", [.late, .early], ⟨"v", true⟩⟩,
    ⟨.stem .drums, [], ⟨"d", true⟩⟩]⟩

def shiftedVocalsPlan : Plan :=
  ⟨[⟨0, .stem .vocals, [.late], ⟨"slow", false⟩, 1⟩,
    ⟨1, .sink "slow" 0, [.late, .early], ⟨"v", true⟩, 0⟩, ⟨2, .stem .drums, [], ⟨"d", true⟩, 0⟩],
    { drums := some 1, vocals := some 1 }⟩

def monoAndStereo : StemMap Buffer :=
  { drums := some ⟨[[0, ⟨1⟩, 0], [⟨1⟩, 0, 0]], 8000⟩, vocals := some ⟨[[⟨1⟩, 0]], 8000⟩ }

lemma allRegular_monoAndStereo : monoAndStereo.AllRegular := by
  intro s b hb
  refine Buffer.layoutFault?_eq_none_iff.mp ?_
  cases s <;> cases hb <;> rfl

theorem execute_standard_shiftedVocals :
    let settings : Settings := { timeShift := 3 }
    let result := (execute shiftedVocalsPlan monoAndStereo settings.bank.apply).result
    Plan.ofRecipe shiftedVocals = .ok shiftedVocalsPlan ∧ settings.validate = .ok settings ∧
    monoAndStereo.AllRegular ∧
    result.map (·.saved) = .ok [⟨"v", ⟨[[0, ⟨1⟩]], 8000⟩⟩,
      ⟨"d", ⟨[[0, ⟨1⟩, 0], [⟨1⟩, 0, 0]], 8000⟩⟩] ∧
    Execution.IsStandard shiftedVocals shiftedVocalsPlan settings monoAndStereo :=
  ⟨by decide, by decide, allRegular_monoAndStereo, by decide,
    execute_standard shiftedVocals shiftedVocalsPlan (by decide) { timeShift := 3 } (by decide)
      monoAndStereo allRegular_monoAndStereo⟩

end Remix
