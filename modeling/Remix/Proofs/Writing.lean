import Mathlib.Tactic.Common
import Remix.Proofs.Precedence
import Remix.Proofs.Rereading
import Remix.Proofs.Trees

/-!
# Writing a mix

The file of a mix is made before its samples are written, so whatever stops the writer leaves a
file behind. Here an attempt to render keeps the tree as it is then, also if it fails. A mix is
regular and all its samples have the width of the file: so nothing but a break-off can stop an
attempt once there is a file, and an attempt that fails has changed nothing.
-/

namespace Remix

namespace Wave

/-- What a writer of wave files is handed: a whole number, or a sample as it is. -/
inductive Value where
  | whole (v : Int)
  | float (s : Sample)

/-- Why a writer does not take a value. -/
inductive Refusal where
  | otherEncoding
  | tooWide

def Refusal.message : Refusal → String
  | otherEncoding => "The sample format differs from the destination format."
  | tooWide => Fault.tooWide.message

/-- The value for a sample of a file. -/
def Depth.value (d : Depth) (s : Sample) : Value :=
  match d with
  | sixteen => .whole (quantize 16 s.value)
  | twentyFour => .whole (quantize 24 s.value)
  | float => .float s

/-- The bytes that a value is written in. A whole number has to fit into the bits of the format. -/
def Format.bytesOf (f : Format) : Value → Except Refusal Bytes
  | .whole v =>
    match f.encoding with
    | .float => .error .otherEncoding
    | .integer =>
      if -(Nat.pow 2 (f.bits - 1) : Int) ≤ v ∧ v < Nat.pow 2 (f.bits - 1) then
        .ok (signedBytes f.container v)
      else .error .tooWide
  | .float s =>
    match f.encoding with
    | .float => .ok (toBytes f.container s.bits.toNat)
    | .integer => .error .otherEncoding

/-- Writes a file value by value. The header comes first, and the bytes and the values are counted
last. -/
def writeFile (d : Depth) (b : Buffer) : Except Error Bytes := do
  let f := d.format b
  if f.rate = 0 then throw (.ofUnwritable .noRate)
  if f.channels = 0 then throw (.ofUnwritable .noChannels)
  if UInt32.size ≤ f.byteRate then throw (.ofUnwritable .byteRateTooLarge)
  let some samples := b.interleaved? | throw (.ofUnwritable .shortChannel)
  let pieces ← (samples.mapM fun s => f.bytesOf (d.value s)).mapError fun refusal =>
    .inputOutput refusal.message
  let file := fileOf f pieces.flatten
  if UInt32.size + 8 ≤ file.length then throw (.ofUnwritable .tooLong)
  if samples.length % f.channels = 0 then return file
  else throw (.ofUnwritable .partialFrame)

/-- No sample is refused. -/
lemma bytesOf_value (d : Depth) (b : Buffer) (s : Sample) :
    (d.format b).bytesOf (d.value s) = .ok (d.sampleBytes s) := by
  cases d with
  | sixteen => exact if_pos (quantize_mem 16 s.value)
  | twentyFour => exact if_pos (quantize_mem 24 s.value)
  | float => rfl

lemma mapM_bytesOf (d : Depth) (b : Buffer) (samples : List Sample) :
    (samples.mapM fun s => (d.format b).bytesOf (d.value s)) =
      .ok (samples.map d.sampleBytes) := by
  induction samples with
  | nil => rfl
  | cons s rest ih =>
    rw [List.mapM_cons, bytesOf_value, ih]
    rfl

/-- Written value by value, a file is the encoding of the buffer as a whole. -/
lemma writeFile_eq (d : Depth) (b : Buffer) :
    writeFile d b = (encode d b).mapError Error.ofUnwritable := by
  unfold writeFile encode
  dsimp only
  by_cases hrate : (d.format b).rate = 0
  · rw [if_pos hrate, if_pos hrate]
    rfl
  · rw [if_neg hrate, if_neg hrate]
    by_cases hchannels : (d.format b).channels = 0
    · rw [if_pos hchannels, if_pos hchannels]
      rfl
    · rw [if_neg hchannels, if_neg hchannels]
      by_cases hlarge : UInt32.size ≤ (d.format b).byteRate
      · rw [if_pos hlarge, if_pos hlarge]
        rfl
      · rw [if_neg hlarge, if_neg hlarge]
        cases b.interleaved? with
        | none => rfl
        | some samples =>
          dsimp only
          rw [mapM_bytesOf, List.flatMap_def]
          change (if _ then _ else _) = _
          split_ifs <;> rfl

/-- A regular buffer that is not written breaks the attempt off. -/
lemma fatal_of_writeFile {b : Buffer} (hb : b.IsRegular) {d : Depth} {e : Error}
    (h : writeFile d b = .error e) : e.isFatal := by
  obtain ⟨samples, hsamples⟩ := exists_interleaved hb
  rw [writeFile_eq, encode_eq d hb hsamples] at h
  split_ifs at h <;> cases h <;> rfl

end Wave

/-- What an attempt to change a tree leaves, and how it has ended. -/
structure Attempt (α : Type) where
  files : Files
  result : Except Error α

/-- Makes the file of a path and writes a buffer to it. Once there is a file it stays: if the
writer stops, with what remains of its content. -/
def Files.tryExport (remains : Bytes) (f : Files) (path : String) (depth : Nat) (b : Buffer) :
    Attempt Unit :=
  match Wave.Depth.ofBits? depth with
  | none => ⟨f, .error (.unsupportedFormat s!"{depth}-bit audio (only 16, 24, 32 supported)")⟩
  | some d =>
    match f.target path with
    | .error fault => ⟨f, .error (.ofFileFault fault)⟩
    | .ok names =>
      match Wave.writeFile d b with
      | .error e => ⟨f.addFile names remains, .error e⟩
      | .ok content => ⟨f.addFile names content, .ok ()⟩

/-- Renders a recipe to a file, and keeps the tree also if the render fails. -/
def Renderer.tryRenderToFile (remains : Bytes) (r : Renderer) (f : Files) (stamp : Stamp)
    (text input output : String) : Attempt Report :=
  match (r.render text input).result with
  | .error e => ⟨f, .error e⟩
  | .ok d =>
    let exported := f.tryExport remains output r.settings.bitDepth.toNat d.track.buffer
    match exported.result with
    | .error e => ⟨exported.files, .error e⟩
    | .ok () =>
      ⟨exported.files,
       (exported.files.checksum output).map (Report.ofRendered stamp input output d)⟩

section Attempts

variable {f : Files} {path : String} {names : List String} {remains : Bytes}

lemma checksum_addFile (htarget : f.target path = .ok names) (content : Bytes) :
    (f.addFile names content).checksum path = .ok (hexText (Sha256.hash content)) := by
  rw [Files.checksum, (Files.isTarget_of_target htarget).read_addFile content]
  rfl

/-- An attempt succeeds with the tree that the export gives, or fails with its error. -/
lemma exportAudio_eq (remains : Bytes) (f : Files) (path : String) (depth : Nat) (b : Buffer) :
    f.exportAudio path depth b = (f.tryExport remains path depth b).result.map fun _ =>
      (f.tryExport remains path depth b).files := by
  unfold Files.exportAudio Files.tryExport
  cases Wave.Depth.ofBits? depth with
  | none => rfl
  | some d =>
    dsimp only
    unfold Files.write
    cases f.target path with
    | error fault => rfl
    | ok names =>
      rw [Wave.writeFile_eq]
      cases Wave.encode d b <;> rfl

lemma renderToFile_eq (remains : Bytes) (r : Renderer) (f : Files) (stamp : Stamp)
    (text input output : String) :
    (r.renderToFile f stamp text input output).result =
      (r.tryRenderToFile remains f stamp text input output).result.map fun report =>
        (report, (r.tryRenderToFile remains f stamp text input output).files) := by
  unfold Renderer.renderToFile Renderer.tryRenderToFile
  rw [Traced.result_bind_ok (Traced.result_tell _), Traced.result_bind]
  cases (r.render text input).result with
  | error e => rfl
  | ok d =>
    change (Traced.ofExcept (f.exportAudio output _ _) >>= _).result = _
    rw [exportAudio_eq remains]
    dsimp only
    generalize f.tryExport remains output r.settings.bitDepth.toNat d.track.buffer = exported
    obtain ⟨files, result⟩ := exported
    cases result with
    | error e => rfl
    | ok _ =>
      change (Traced.ofExcept (files.checksum output) >>= _).result = _
      dsimp only
      cases files.checksum output <;> rfl

/-- Where a regular buffer is not exported, the tree is as before, or the attempt breaks off. -/
lemma tryExport_error {depth : Nat} {b : Buffer} (hb : b.IsRegular) {e : Error}
    (h : (f.tryExport remains path depth b).result = .error e) (he : ¬ e.isFatal) :
    (f.tryExport remains path depth b).files = f := by
  unfold Files.tryExport at h ⊢
  cases hdepth : Wave.Depth.ofBits? depth with
  | none => rfl
  | some d =>
    rw [hdepth] at h
    dsimp only at h ⊢
    cases htarget : f.target path with
    | error fault => rfl
    | ok names =>
      rw [htarget] at h
      dsimp only at h ⊢
      cases hwrite : Wave.writeFile d b with
      | error e' =>
        rw [hwrite] at h
        cases h
        exact absurd (Wave.fatal_of_writeFile hb hwrite) he
      | ok content =>
        rw [hwrite] at h
        cases h

/-- A buffer that is exported is in the file of the path as a whole. -/
lemma tryExport_ok {depth : Nat} {b : Buffer}
    (h : (f.tryExport remains path depth b).result = .ok ()) :
    ∃ d names content, Wave.Depth.ofBits? depth = some d ∧ f.target path = .ok names ∧
      Wave.encode d b = .ok content ∧
      (f.tryExport remains path depth b).files = f.addFile names content := by
  unfold Files.tryExport at h ⊢
  cases hdepth : Wave.Depth.ofBits? depth with
  | none =>
    rw [hdepth] at h
    cases h
  | some d =>
    rw [hdepth] at h
    dsimp only at h ⊢
    cases htarget : f.target path with
    | error fault =>
      rw [htarget] at h
      cases h
    | ok names =>
      rw [htarget] at h
      dsimp only at h ⊢
      cases hwrite : Wave.writeFile d b with
      | error e =>
        rw [hwrite] at h
        cases h
      | ok content =>
        refine ⟨d, names, content, rfl, rfl, ?_, rfl⟩
        rw [Wave.writeFile_eq] at hwrite
        exact mapError_eq_ok_iff.mp hwrite

end Attempts

/-- What is mixed of stems that are read from files has samples. -/
lemma isFilled_of_stages {f : Files} {wanted : Option (List Stem)} {text input : String}
    {plan : Plan} {stems : StemMap Buffer} {bank : Bank} {out : Output} {ceiling : Option Float32}
    {track : Track} (hplan : (compile text).result = .ok plan)
    (hstems : (loadStems f wanted input).result = .ok stems)
    (hout : (execute plan stems bank.apply).result = .ok out)
    (htrack : (mix out.saved ceiling).result = .ok track) : track.buffer.IsFilled := by
  obtain ⟨r, hr⟩ := (delivers_compile text).of_ok hplan
  have hfilled := (delivers_loadStems f wanted input).of_ok hstems
  exact Execution.isFilled_mix_saved hr hfilled hout htrack

/-- What a report tells of an execution, of the mix of what it saves, and of the file that holds the
mix. -/
structure Report.Tells (report : Report) (out : Output) (track : Track) (content : Bytes) :
    Prop where
  saved : report.saved = track.sources
  released : report.released = out.stats.released
  actionsApplied : report.actionsApplied = out.stats.actionsApplied
  peakLive : report.peakLive = out.stats.peakLive
  rate : report.rate = track.buffer.rate
  channels : report.channels = track.buffer.channels.length
  checksum : report.checksum = hexText (Sha256.hash content)

/-- A render writes the whole mix or nothing. An attempt that fails leaves the tree as it was,
unless it breaks off, whatever a file that is given up would hold. One that succeeds has changed the
file at the output path only: it holds the mix as a wave file, which is read as the mix with its
samples as they are kept at this depth, and the report tells of the execution and of this file. -/
theorem render_all_or_nothing (remains : Bytes) (f : Files) (wanted : Option (List Stem))
    (settings : Settings) (renderer : Renderer)
    (hnew : Renderer.new (loadStems f wanted) settings = .ok renderer) (stamp : Stamp)
    (text input output : String) :
    let attempt := renderer.tryRenderToFile remains f stamp text input output
    (renderer.renderToFile f stamp text input output).result =
      (attempt.result.map fun report => (report, attempt.files)) ∧
    (∀ e, attempt.result = .error e → ¬ e.isFatal → attempt.files = f) ∧
    ∀ report, attempt.result = .ok report → ∃ plan stems out track d names content,
      (compile text).result = .ok plan ∧ (loadStems f wanted input).result = .ok stems ∧
      (execute plan stems settings.bank.apply).result = .ok out ∧
      (mix out.saved settings.mixCeiling).result = .ok track ∧
      Wave.Depth.ofBits? settings.bitDepth.toNat = some d ∧
      Wave.encode d track.buffer = .ok content ∧
      (∀ path, Wave.decode path content = .ok (track.buffer.map d.reread)) ∧
      f.target output = .ok names ∧ f.DifferAt names attempt.files ∧
      attempt.files.get? names = some (.file content) ∧
      attempt.files.read output = .ok content ∧ report.Tells out track content := by
  obtain ⟨rfl, -⟩ := Renderer.eq_of_new hnew
  refine ⟨renderToFile_eq remains _ f stamp text input output, ?_⟩
  unfold Renderer.tryRenderToFile
  cases hrender : (Renderer.render ⟨loadStems f wanted, settings.bank, settings⟩ text
      input).result with
  | error e => exact ⟨fun _ _ _ => rfl, nofun⟩
  | ok rendered =>
    have hregular :=
      (delivers_render f wanted settings.bank settings text input).of_ok hrender
    dsimp only
    cases hexport : (f.tryExport remains output settings.bitDepth.toNat
        rendered.track.buffer).result with
    | error e =>
      refine ⟨fun e' he' hfatal => ?_, nofun⟩
      cases he'
      exact tryExport_error hregular hexport hfatal
    | ok _ =>
      obtain ⟨d, names, content, hdepth, htarget, hencode, hfiles⟩ := tryExport_ok hexport
      have htargeted := Files.isTarget_of_target htarget
      dsimp only
      rw [hfiles, checksum_addFile htarget]
      refine ⟨nofun, fun report hreport => ?_⟩
      cases hreport
      obtain ⟨plan, stems, out, hplan, hstems, hout, htrack, hstats⟩ :=
        stages_of_renderWith hrender
      have hfilled := isFilled_of_stages hplan hstems hout htrack
      refine ⟨plan, stems, out, rendered.track, d, names, content, hplan, hstems, hout, htrack,
        hdepth, hencode, Wave.decode_encode hfilled hencode, htarget, htargeted.differAt content,
        Files.IsTarget.get?_addFile f names content, htargeted.read_addFile content, ?_⟩
      exact ⟨rfl, congrArg Stats.released hstats, congrArg Stats.actionsApplied hstats,
        congrArg Stats.peakLive hstats, rfl, rfl, rfl⟩

/-- Where the mix of a silent vocals stem is written, and a recipe that saves nothing. -/
theorem render_all_or_nothing_silentVocals :
    let separator := loadStems drumsAndVocals (some vocalsOnlyPlan.requiredStems)
    let renderer : Renderer := ⟨separator, ({} : Settings).bank, {}⟩
    let attempt (text : String) : Attempt Report :=
      renderer.tryRenderToFile [] drumsAndVocals ⟨"", "", 0⟩ text "stems" "mix.wav"
    Renderer.new separator {} = .ok renderer ∧
    (attempt "vocals -> v;").result = .error (.badNames .emptyOutput) ∧
    (attempt "vocals -> v;").files = drumsAndVocals ∧
    ∃ report content, (attempt "vocals -> save(v);").result = .ok report ∧
      drumsAndVocals.DifferAt ["mix.wav"] (attempt "vocals -> save(v);").files ∧
      (attempt "vocals -> save(v);").files.read "mix.wav" = .ok content ∧
      report.checksum = hexText (Sha256.hash content) := by
  intro separator renderer attempt
  have hvalid : ({} : Settings).validate = .ok {} := by decide
  have hnew : Renderer.new separator {} = .ok renderer := Renderer.new_of_validate hvalid _
  have hwrong : (compile "vocals -> v;").result = .error (.badNames .emptyOutput) := by decide
  have hright : (compile "vocals -> save(v);").result = .ok vocalsOnlyPlan := by decide
  have hfailed : (attempt "vocals -> v;").result = .error (.badNames .emptyOutput) := by
    have hrender : renderer.render "vocals -> v;" "stems" =
        ⟨(compile "vocals -> v;").events, .error (.badNames .emptyOutput)⟩ :=
      Traced.bind_of_error hwrong _
    change (renderer.tryRenderToFile _ _ _ _ _ _).result = _
    unfold Renderer.tryRenderToFile
    rw [hrender]
  obtain ⟨-, hunchanged, -⟩ := render_all_or_nothing [] drumsAndVocals _ {} renderer hnew
    ⟨"", "", 0⟩ "vocals -> v;" "stems" "mix.wav"
  obtain ⟨-, -, hwritten⟩ := render_all_or_nothing [] drumsAndVocals _ {} renderer hnew
    ⟨"", "", 0⟩ "vocals -> save(v);" "stems" "mix.wav"
  have hdone : ∃ report, (attempt "vocals -> save(v);").result = .ok report := by
    have hstems : (separator "stems").result = .ok { vocals := some ⟨[[0]], 8000⟩ } := by
      obtain ⟨-, hwanted⟩ := findStems_of_folder folder_drumsAndVocals
      rw [stemFiles_drumsAndVocals] at hwanted
      rw [result_loadStems, hwanted]
      decide +kernel
    have hrender : (renderer.render "vocals -> save(v);" "stems").result =
        .ok ⟨⟨⟨[[0]], 8000⟩, ["v"], 1⟩, ⟨1, 0, 1, []⟩, 1⟩ := by
      rw [Renderer.result_render hright]
      change (separator "stems").result >>= _ = _
      rw [hstems]
      decide +kernel
    change ∃ report, (renderer.tryRenderToFile _ _ _ _ _ _).result = .ok report
    unfold Renderer.tryRenderToFile
    rw [hrender]
    exact ⟨_, rfl⟩
  obtain ⟨report, hreport⟩ := hdone
  obtain ⟨plan, stems, out, track, d, names, content, -, -, -, -, -, -, -, htarget, hdiffer, -,
    hread, htells⟩ := hwritten report hreport
  have hnames : names = ["mix.wav"] := by
    have h : drumsAndVocals.target "mix.wav" = .ok ["mix.wav"] := by decide
    rw [h] at htarget
    cases htarget
    rfl
  subst hnames
  exact ⟨hnew, hfailed, hunchanged _ hfailed nofun, report, content, hreport, hdiffer, hread,
    htells.checksum⟩

end Remix
