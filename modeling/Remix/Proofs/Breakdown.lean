import Remix.Proofs.Encoding
import Remix.Proofs.WorkingSet
import Remix.Report
import Remix.StemFolder

/-!
# Where a render breaks off

A render that fails mostly says why. It breaks off without a word only where the mix cannot be put
into a file: its sample rate is 0, or a second of it or all of it takes more bytes than a header can
tell. The places where a channel is turned too far or read behind its end are out of reach, since
all buffers are regular.
-/

namespace Remix

/-- A computation that does not break off, and whose result satisfies `P`. -/
inductive Delivers {α : Type} (P : α → Prop) : Except Error α → Prop where
  | ok {a : α} (h : P a) : Delivers P (.ok a)
  | error {e : Error} (h : ¬ e.isFatal) : Delivers P (.error e)

/-- A computation that ends at an error that nobody is told of. -/
def BreaksOff {α : Type} (x : Except Error α) : Prop := ∃ e, x = .error e ∧ e.isFatal

lemma not_breaksOff_ok {α : Type} (a : α) : ¬ BreaksOff (.ok a) := by
  rintro ⟨e, he, -⟩
  cases he

lemma breaksOff_error_iff {α : Type} {e : Error} :
    BreaksOff (.error e : Except Error α) ↔ e.isFatal := by
  constructor
  · rintro ⟨e', he, hfatal⟩
    cases he
    exact hfatal
  · intro hfatal
    exact ⟨e, rfl, hfatal⟩

/-- What never breaks off may follow on anything. -/
lemma breaksOff_bind_of_mild {α β : Type} {x : Except Error α} {f : α → Except Error β}
    (hf : ∀ a, ¬ BreaksOff (f a)) : BreaksOff (x >>= f) ↔ BreaksOff x := by
  cases x with
  | ok a => exact iff_of_false (hf a) (not_breaksOff_ok a)
  | error e => exact breaksOff_error_iff.trans breaksOff_error_iff.symm

namespace Delivers

variable {α β ε : Type} {P : α → Prop} {Q : β → Prop}

lemma of_ok {x : Except Error α} {a : α} (hx : Delivers P x) (h : x = .ok a) : P a := by
  subst h
  cases hx with
  | ok ha => exact ha

lemma imp {P' : α → Prop} {x : Except Error α} (hx : Delivers P x) (h : ∀ a, P a → P' a) :
    Delivers P' x := by
  cases hx with
  | ok ha => exact .ok (h _ ha)
  | error he => exact .error he

lemma bind {x : Except Error α} {f : α → Except Error β} (hx : Delivers P x)
    (hf : ∀ a, P a → Delivers Q (f a)) : Delivers Q (x >>= f) := by
  cases hx with
  | ok ha => exact hf _ ha
  | error he => exact .error he

/-- Errors of a kind that is not fatal. -/
lemma mapError {g : ε → Error} (hg : ∀ e, ¬ (g e).isFatal) (x : Except ε α) :
    Delivers (fun a => x = .ok a) (x.mapError g) := by
  cases x with
  | error e => exact .error (hg e)
  | ok a => exact .ok rfl

lemma not_breaksOff {x : Except Error α} (hx : Delivers P x) : ¬ BreaksOff x := by
  cases hx with
  | ok _ => exact not_breaksOff_ok _
  | error he => exact mt breaksOff_error_iff.mp he

lemma breaksOff_bind_iff {x : Except Error α} {f : α → Except Error β} (hx : Delivers P x) :
    BreaksOff (x >>= f) ↔ ∃ a, x = .ok a ∧ P a ∧ BreaksOff (f a) := by
  cases hx with
  | @ok a ha =>
    change BreaksOff (f a) ↔ _
    simp [ha]
  | @error e he =>
    refine iff_of_false (mt breaksOff_error_iff.mp he) ?_
    rintro ⟨a, ha, -⟩
    cases ha

end Delivers

namespace Error

lemma ofWaveFault_not_fatal (attempt : String) (fault : Wave.Fault) :
    ¬ (ofWaveFault attempt fault).isFatal := Bool.false_ne_true

lemma ofFileFault_not_fatal (fault : FileFault) : ¬ (ofFileFault fault).isFatal :=
  Bool.false_ne_true

lemma ofLayoutFault_not_fatal (fault : LayoutFault) : ¬ (ofLayoutFault fault).isFatal := by
  cases fault <;> exact Bool.false_ne_true

end Error

lemma delivers_decode (path : String) (bytes : Bytes) :
    Delivers Buffer.IsFilled (Wave.decode path bytes) := by
  refine (Delivers.mapError (Error.ofWaveFault_not_fatal _) _).bind fun content _ => ?_
  dsimp only
  cases Layout.ofCount? content.format.channels with
  | none => exact .error (Error.ofLayoutFault_not_fatal _)
  | some layout =>
    cases content.format.kind? with
    | none => exact .error Bool.false_ne_true
    | some kind =>
      refine (Delivers.mapError (Error.ofWaveFault_not_fatal _) _).bind fun samples _ => ?_
      by_cases hempty : samples.isEmpty
      · rw [if_pos hempty]
        exact .error Bool.false_ne_true
      · rw [if_neg hempty]
        cases hb : Buffer.ofInterleaved samples layout (UInt32.ofNat content.format.rate) with
        | error fault => exact .error (Error.ofLayoutFault_not_fatal fault)
        | ok b =>
          have hne : samples ≠ [] := mt List.isEmpty_iff.mpr hempty
          exact .ok ⟨Buffer.isRegular_of_ofInterleaved hb,
            Buffer.length_pos_of_ofInterleaved hb hne⟩

lemma exists_firstOfEach (found files : List StemFile) :
    ∃ first, (firstOfEach found files).result = .ok first := by
  induction files generalizing found with
  | nil => exact ⟨found, rfl⟩
  | cons f files ih =>
    unfold firstOfEach
    cases found.find? (·.stem = f.stem) with
    | none => exact ih (found ++ [f])
    | some first =>
      dsimp only
      rw [Traced.result_bind_ok (Traced.result_tell _)]
      exact ih found

lemma delivers_findStems (f : Files) (wanted : Option (List Stem)) (folder : String) :
    Delivers (fun _ => True) (findStems f wanted folder).result := by
  unfold findStems
  cases f.folder? folder with
  | none => exact .error Bool.false_ne_true
  | some children =>
    obtain ⟨first, hfirst⟩ := exists_firstOfEach []
      ((walk stemDepth folder children).filterMap (·.asStem? wanted))
    dsimp only
    rw [hfirst]
    exact .ok trivial

lemma delivers_readStems {stems : StemMap Buffer} (hstems : stems.All Buffer.IsFilled)
    (files : List StemFile) :
    Delivers (StemMap.All Buffer.IsFilled) (readStems stems files).result := by
  induction files generalizing stems with
  | nil => exact .ok hstems
  | cons f files ih =>
    rw [readStems, Traced.result_bind_ok (Traced.result_tell _), Traced.result_bind]
    exact (delivers_decode _ _).bind fun b hb => ih (hstems.insert f.stem hb)

lemma delivers_loadStems (f : Files) (wanted : Option (List Stem)) (folder : String) :
    Delivers (StemMap.All Buffer.IsFilled) (loadStems f wanted folder).result := by
  rw [loadStems, Traced.result_bind]
  refine (delivers_findStems f wanted folder).bind fun files _ => ?_
  rw [Traced.result_bind]
  refine (delivers_readStems StemMap.all_empty files).bind fun stems hstems => ?_
  exact .ok hstems

lemma delivers_compile (text : String) :
    Delivers (fun plan => ∃ r, Plan.ofRecipe r = .ok plan) (compile text).result := by
  rw [result_compile]
  refine (Delivers.mapError (g := .badRecipe) (fun _ => Bool.false_ne_true) _).bind fun r _ => ?_
  have hbuilt := Delivers.mapError (g := .badNames) (fun _ => Bool.false_ne_true)
    (Plan.ofRecipe r)
  exact hbuilt.imp fun plan hplan => ⟨r, hplan⟩

/-- Where all stems are regular, no transform of a bank is handed a channel that is too short, and
there is room for every statement. -/
lemma delivers_execute {r : Recipe} {plan : Plan} (h : Plan.ofRecipe r = .ok plan)
    {stems : StemMap Buffer} (hstems : stems.AllRegular) (bank : Bank) :
    Delivers (fun out => ∀ x ∈ out.saved, x.buffer.IsRegular)
      ((execute plan stems bank.apply).result.mapError Error.runtime) := by
  cases he : (execute plan stems bank.apply).result with
  | ok out => exact .ok (Execution.isRegular_of_saved h hstems he)
  | error e =>
    refine .error ?_
    obtain ⟨i, q, p, -, -, hstop⟩ := Execution.exists_stopsAt h he
    rcases hstop with ⟨-, rfl⟩ | ⟨reading, -, a, -, c, hlast, hrejected⟩
    · unfold Execution.missing
      split <;> exact Bool.false_ne_true
    · have hc := Execution.isRegular_of_applying h hstems (List.mem_of_getLast? hlast)
      cases hrejected with
      | @failed cause hcause =>
        cases cause with
        | overturned length shift =>
          exact absurd hcause (bank.apply_ne_overturned a hc length shift)
        | unsupportedRate rate => exact Bool.false_ne_true
        | notFinite => exact Bool.false_ne_true
        | badLayout problem => exact Bool.false_ne_true
        | failed reason => exact Bool.false_ne_true
      | rate _ _ => exact Bool.false_ne_true
      | layout _ _ _ _ => exact Bool.false_ne_true
      | samples _ _ _ _ => exact Bool.false_ne_true

lemma delivers_mix {inputs : List NamedBuffer} (ceiling : Option Float32)
    (h : ∀ x ∈ inputs, x.buffer.IsRegular) :
    Delivers (fun track => track.buffer.IsRegular)
      ((mix inputs ceiling).result.mapError Error.runtime) := by
  cases inputs with
  | nil => exact .error Bool.false_ne_true
  | cons first rest =>
    cases hother : (first :: rest).find? (·.buffer.rate ≠ first.buffer.rate) with
    | some other =>
      rw [mix, hother]
      exact .error Bool.false_ne_true
    | none =>
      obtain ⟨track, htrack, -, hregular⟩ := exists_mix ceiling hother h
      rw [htrack]
      exact .ok hregular

/-- The whole render delivers a regular mix or an error that is told. -/
theorem delivers_render (f : Files) (wanted : Option (List Stem)) (bank : Bank)
    (settings : Settings) (text input : String) :
    Delivers (fun d => d.track.buffer.IsRegular)
      (Renderer.render ⟨loadStems f wanted, bank, settings⟩ text input).result := by
  rw [Renderer.render, Traced.result_bind]
  refine (delivers_compile text).bind fun plan hplan => ?_
  obtain ⟨r, hr⟩ := hplan
  rw [Traced.result_bind_ok (Traced.result_tell _), Traced.result_bind_ok (Traced.result_tell _),
    Traced.result_bind]
  refine (delivers_loadStems f wanted input).bind fun stems hstems => ?_
  rw [Traced.result_bind_ok (Traced.result_tell _), Traced.result_bind]
  refine (delivers_execute hr hstems.allRegular bank).bind fun out hout => ?_
  rw [Traced.result_bind]
  refine (delivers_mix settings.mixCeiling hout).bind fun track htrack => ?_
  exact .ok htrack

/-- A regular buffer is refused if its sample rate is 0, or if the bytes of a second or those of the
file are more than a header can tell. -/
lemma Wave.breaksOff_encode_iff (d : Depth) {b : Buffer} (hb : b.IsRegular) :
    BreaksOff ((encode d b).mapError Error.ofUnwritable) ↔
      b.rate = 0 ∨ UInt32.size ≤ b.byteRate d.bits ∨ UInt32.size + 8 ≤ fileSize d.bits b := by
  obtain ⟨samples, hsamples⟩ := exists_interleaved hb
  rw [encode_eq d hb hsamples]
  by_cases hrate : b.rate = 0
  · rw [if_pos hrate]
    exact iff_of_true ⟨_, rfl, rfl⟩ (.inl hrate)
  · rw [if_neg hrate]
    by_cases hlarge : UInt32.size ≤ b.byteRate d.bits
    · rw [if_pos hlarge]
      exact iff_of_true ⟨_, rfl, rfl⟩ (.inr (.inl hlarge))
    · rw [if_neg hlarge]
      by_cases hlong : UInt32.size + 8 ≤ fileSize d.bits b
      · rw [if_pos hlong]
        exact iff_of_true ⟨_, rfl, rfl⟩ (.inr (.inr hlong))
      · rw [if_neg hlong]
        exact iff_of_false (not_breaksOff_ok _) (not_or.mpr ⟨hrate, not_or.mpr ⟨hlarge, hlong⟩⟩)

/-- A regular buffer cannot be put into a file if there is a place for it, and it is refused. -/
lemma breaksOff_exportAudio_iff (f : Files) (path : String) {bits : Nat} {b : Buffer}
    (hbits : bits = 16 ∨ bits = 24 ∨ bits = 32) (hb : b.IsRegular) :
    BreaksOff (f.exportAudio path bits b) ↔
      (∃ names, f.target path = .ok names) ∧
        (b.rate = 0 ∨ UInt32.size ≤ b.byteRate bits ∨
          UInt32.size + 8 ≤ Wave.fileSize bits b) := by
  obtain ⟨d, hd, rfl⟩ := Wave.Depth.exists_ofBits? hbits
  unfold Files.exportAudio
  rw [hd, ← Wave.breaksOff_encode_iff d hb]
  dsimp only
  have htarget := Delivers.mapError Error.ofFileFault_not_fatal (f.target path)
  have hwrite : ∀ bytes,
      ¬ BreaksOff ((f.write path bytes).mapError Error.ofFileFault) := fun bytes =>
    (Delivers.mapError Error.ofFileFault_not_fatal (f.write path bytes)).not_breaksOff
  rw [htarget.breaksOff_bind_iff]
  constructor
  · rintro ⟨names, -, hnames, hbreaks⟩
    exact ⟨⟨names, hnames⟩, (breaksOff_bind_of_mild hwrite).mp hbreaks⟩
  · rintro ⟨⟨names, hnames⟩, hbreaks⟩
    refine ⟨names, ?_, hnames, (breaksOff_bind_of_mild hwrite).mpr hbreaks⟩
    rw [hnames]
    rfl

namespace Renderer

lemma eq_of_new {separator : Separator} {settings : Settings} {renderer : Renderer}
    (h : new separator settings = .ok renderer) :
    renderer = ⟨separator, settings.bank, settings⟩ ∧ (settings.bitDepth.toNat = 16 ∨
      settings.bitDepth.toNat = 24 ∨ settings.bitDepth.toNat = 32) := by
  unfold new Settings.validate at h
  cases hfault : settings.fault? with
  | some reason =>
    rw [hfault] at h
    cases h
  | none =>
    rw [hfault] at h
    cases h
    refine ⟨rfl, ?_⟩
    unfold Settings.fault? at hfault
    by_contra hbits
    have hdepth : settings.bitDepth ≠ 16 ∧ settings.bitDepth ≠ 24 ∧ settings.bitDepth ≠ 32 := by
      refine ⟨?_, ?_, ?_⟩ <;>
      · rintro hd
        rw [hd] at hbits
        exact hbits (by decide)
    rw [if_pos hdepth] at hfault
    split at hfault
    · cases hfault
    · split at hfault
      · cases hfault
      · split at hfault <;> cases hfault

lemma breaksOff_renderToFile_iff {f : Files} {wanted : Option (List Stem)} {settings : Settings}
    {stamp : Stamp} {text input output : String}
    (hbits : settings.bitDepth.toNat = 16 ∨ settings.bitDepth.toNat = 24 ∨
      settings.bitDepth.toNat = 32) :
    BreaksOff (renderToFile ⟨loadStems f wanted, settings.bank, settings⟩ f stamp text input
        output).result ↔
      ∃ d, (render ⟨loadStems f wanted, settings.bank, settings⟩ text input).result = .ok d ∧
        (∃ names, f.target output = .ok names) ∧
        (d.track.buffer.rate = 0 ∨
          UInt32.size ≤ d.track.buffer.byteRate settings.bitDepth.toNat ∨
          UInt32.size + 8 ≤ Wave.fileSize settings.bitDepth.toNat d.track.buffer) := by
  have hrender := delivers_render f wanted settings.bank settings text input
  rw [renderToFile, Traced.result_bind_ok (Traced.result_tell _), Traced.result_bind,
    hrender.breaksOff_bind_iff]
  refine exists_congr fun d => and_congr_right fun hd => ?_
  have hregular := hrender.of_ok hd
  rw [and_iff_right hregular, ← breaksOff_exportAudio_iff f output hbits hregular,
    Traced.result_bind]
  -- The file is there once it is written, and nothing that follows breaks off.
  refine breaksOff_bind_of_mild fun written => ?_
  rw [Traced.result_bind]
  have hchecksum := Delivers.mapError Error.ofFileFault_not_fatal
    ((written.read output).map fun bytes => hexText (Sha256.hash bytes))
  have hreport := hchecksum.bind (Q := fun _ => True) (f := fun checksum =>
    .ok (Report.ofRendered stamp input output d checksum, written)) fun _ _ => .ok trivial
  exact hreport.not_breaksOff

end Renderer

/-- Where a render to a file breaks off: at the file, if the mix has the sample rate 0, or more
bytes a second or in all than a header can tell, and nowhere else. The count of the buffers in store
never goes below 0 either. -/
theorem renderToFile_breaksOff_iff (f : Files) (wanted : Option (List Stem)) (settings : Settings)
    (stamp : Stamp) (text input output : String) :
    ((∃ renderer, Renderer.new (loadStems f wanted) settings = .ok renderer ∧
        BreaksOff (renderer.renderToFile f stamp text input output).result) ↔
      ∃ renderer d, Renderer.new (loadStems f wanted) settings = .ok renderer ∧
        (renderer.render text input).result = .ok d ∧
        (∃ names, f.target output = .ok names) ∧
        (d.track.buffer.rate = 0 ∨
          UInt32.size ≤ d.track.buffer.byteRate settings.bitDepth.toNat ∨
          UInt32.size + 8 ≤ Wave.fileSize settings.bitDepth.toNat d.track.buffer)) ∧
    ∀ plan stems transforms, (compile text).result = .ok plan →
      ∀ before q later p reading, plan.statements = before ++ q :: later →
        (Execution.runFrom transforms (.start stems plan.stemReaders plan.statements.length)
          before).result = .ok p →
        p.store.read q.origin = some reading → 0 < p.store.live := by
  constructor
  · constructor
    · rintro ⟨renderer, hnew, hbreaks⟩
      obtain ⟨rfl, hbits⟩ := Renderer.eq_of_new hnew
      obtain ⟨d, hd⟩ := (Renderer.breaksOff_renderToFile_iff hbits).mp hbreaks
      exact ⟨_, d, hnew, hd⟩
    · rintro ⟨renderer, d, hnew, hd⟩
      obtain ⟨rfl, hbits⟩ := Renderer.eq_of_new hnew
      exact ⟨_, hnew, (Renderer.breaksOff_renderToFile_iff hbits).mpr ⟨d, hd⟩⟩
  · intro plan stems transforms hplan before q later p reading hsplit hrun hread
    obtain ⟨r, hr⟩ := (delivers_compile text).of_ok hplan
    exact Execution.live_pos_of_read hr hsplit hrun hread

/-- A folder with one stem: a sample of silence at 0 samples a second. -/
def timelessVocals : Files :=
  Files.empty.addFile ["stems", "vocals.wav"]
    [0x52, 0x49, 0x46, 0x46, 40, 0, 0, 0, 0x57, 0x41, 0x56, 0x45, 0x66, 0x6d, 0x74, 0x20, 16, 0,
      0, 0, 3, 0, 1, 0, 0, 0, 0, 0, 0, 0, 0, 0, 4, 0, 32, 0, 0x64, 0x61, 0x74, 0x61, 4, 0, 0, 0,
      0, 0, 0, 0]

def vocalsOnlyPlan : Plan :=
  ⟨[⟨0, .stem .vocals, [], ⟨"v", true⟩, 0⟩], { vocals := some 1 }⟩

/-- What is read from a file can have the sample rate 0, and then the mix has it too. -/
theorem renderToFile_breaksOff_timelessVocals :
    BreaksOff (Renderer.renderToFile ⟨loadStems timelessVocals none, ({} : Settings).bank, {}⟩
      timelessVocals ⟨"", "", 0⟩ "vocals -> save(v);" "stems" "mix.wav").result := by
  have hcompile : (compile "vocals -> save(v);").result = .ok vocalsOnlyPlan := by decide
  have hload : (loadStems timelessVocals none "stems").result =
      .ok { vocals := some ⟨[[0]], 0⟩ } := by decide +kernel
  have hexecute : ((execute vocalsOnlyPlan { vocals := some ⟨[[0]], 0⟩ }
      ({} : Settings).bank.apply).mapError Error.runtime).result =
      .ok ⟨[⟨"v", ⟨[[0]], 0⟩⟩], ⟨1, 0, 1, []⟩⟩ := by decide
  have hregular : ∀ x ∈ [(⟨"v", ⟨[[0]], 0⟩⟩ : NamedBuffer)], x.buffer.IsRegular := by
    intro x hx
    rw [List.mem_singleton.mp hx]
    exact Buffer.layoutFault?_eq_none_iff.mp rfl
  obtain ⟨track, htrack, hrate, -⟩ := exists_mix ({} : Settings).mixCeiling (by decide) hregular
  have hmix : ((mix [⟨"v", ⟨[[0]], 0⟩⟩] ({} : Settings).mixCeiling).mapError Error.runtime).result =
      .ok track := by
    rw [Traced.result_mapError, htrack]
    rfl
  refine (Renderer.breaksOff_renderToFile_iff (by decide)).mpr
    ⟨⟨track, ⟨1, 0, 1, []⟩, 1⟩, ?_, ⟨["mix.wav"], by decide⟩, .inl hrate⟩
  rw [Renderer.render, Traced.result_bind_ok hcompile, Traced.result_bind_ok (Traced.result_tell _),
    Traced.result_bind_ok (Traced.result_tell _), Traced.result_bind_ok hload,
    Traced.result_bind_ok (Traced.result_tell _), Traced.result_bind_ok hexecute,
    Traced.result_bind_ok hmix]
  rfl

end Remix
