import Mathlib.Tactic.Common
import Remix.Proofs.Quantizing
import Remix.Proofs.Writing

/-!
# Exporting what was imported

A file of whole numbers of 16 or 24 bits that is imported, exported at its own depth and imported
again holds the same numbers, each one step nearer to zero. A recipe that does nothing but save a
stem writes the same file as an export of the stem.
-/

namespace Remix

namespace Buffer

variable {b : Buffer} {samples : List Sample}

lemma map_eq_self_iff (hb : b.IsRegular) (hsamples : b.interleaved? = some samples)
    (φ : Sample → Sample) : b.map φ = b ↔ ∀ s ∈ samples, φ s = s := by
  have hmapped : (b.map φ).interleaved? = some (samples.map φ) := by
    rw [interleaved_map hb, hsamples]
    rfl
  constructor
  · intro h
    rw [h, hsamples, Option.some_inj] at hmapped
    exact List.map_inj_left.mp (hmapped.symm.trans (List.map_id samples).symm)
  · intro h
    rw [List.map_congr_left (g := id) h, List.map_id] at hmapped
    obtain ⟨layout, hlayout, hdealt⟩ := ofInterleaved_of_interleaved hb hsamples
    obtain ⟨layout', hlayout', hdealt'⟩ :=
      ofInterleaved_of_interleaved (isRegular_map hb φ) hmapped
    have hsame : layout' = layout := by
      rw [layout?, map, List.length_map] at hlayout'
      exact Option.some_inj.mp (hlayout'.symm.trans hlayout)
    rw [hsame] at hdealt'
    exact Except.ok.inj (hdealt'.symm.trans hdealt)

end Buffer

namespace Wave

/-- The whole numbers of a file, as they are before they are scaled. -/
def Content.wholes (c : Content) : List Int :=
  ((groups c.format.container c.count c.bytes).getD []).map fun piece =>
    signed c.format.bits (ofBytes piece)

/-- Whether the samples of a format are whole numbers of so many bits. -/
def Format.IsWhole (f : Format) (d : Depth) : Prop :=
  f.encoding = .integer ∧ f.bits = d.bits

variable {c : Content} {d : Depth} {samples : List Sample}

lemma natAbs_signed_le {bits : Nat} (hbits : bits = 16 ∨ bits = 24) (n : Nat) :
    (signed bits n).natAbs ≤ 2 ^ (bits - 1) := by
  have hpos : 0 < Nat.pow 2 bits := Nat.pow_pos (by decide)
  have hlower := Int.le_bmod (x := n) hpos
  have hupper := Int.bmod_lt (x := n) hpos
  unfold signed
  rcases hbits with rfl | rfl
  all_goals
    simp only [Nat.pow_eq, Nat.reducePow, Nat.reduceSub] at hlower hupper ⊢
    omega

lemma decoder_eq {f : Format} (hwhole : f.IsWhole d) (hd : d ≠ .float) {decode : Bytes → Sample}
    (h : f.decoder = .ok decode) :
    d.width ≤ f.container ∧
      decode = fun piece => ofWhole d.bits (signed d.bits (ofBytes piece)) := by
  obtain ⟨hinteger, hbits⟩ := hwhole
  rw [← hbits]
  unfold Format.decoder at h
  split at h
  · rename_i height
    rw [hbits] at height
    cases d <;> cases height
  · rename_i hcontainer hsixteen
    cases h
    rw [hbits] at hsixteen
    cases d <;> cases hsixteen
    exact ⟨hcontainer.ge, rfl⟩
  · rename_i hcontainer htwentyFour
    cases h
    rw [hbits] at htwentyFour
    cases d <;> cases htwentyFour
    exact ⟨hcontainer.ge, rfl⟩
  · rename_i hcontainer htwentyFour
    cases h
    rw [hbits] at htwentyFour
    cases d <;> cases htwentyFour
    exact ⟨by rw [hcontainer]; decide, rfl⟩
  · rename_i hthirtyTwo
    rw [hbits] at hthirtyTwo
    cases d <;> cases hthirtyTwo
    exact absurd rfl hd
  · rename_i hfloat _ _
    rw [hinteger] at hfloat
    cases hfloat
  · cases h

/-- The samples of a file of whole numbers. -/
lemma samples_eq (hwhole : c.format.IsWhole d) (hd : d ≠ .float) (h : c.samples = .ok samples)
    (hne : samples ≠ []) :
    samples = c.wholes.map (ofWhole d.bits) ∧ d.width ≤ c.format.container := by
  unfold Content.samples at h
  split at h
  · cases h
    exact absurd rfl hne
  · split at h
    · cases h
    · rename_i decode hdecoder
      obtain ⟨hwidth, rfl⟩ := decoder_eq hwhole hd hdecoder
      split at h
      · rename_i pieces hpieces
        cases h
        refine ⟨?_, hwidth⟩
        rw [Content.wholes, hpieces, hwhole.2, List.map_map]
        rfl
      · cases h

lemma exists_of_decode {path : String} {bytes : Bytes} {b : Buffer} (hopen : openFile bytes = .ok c)
    (h : decode path bytes = .ok b) : ∃ samples layout, c.samples = .ok samples ∧ samples ≠ [] ∧
      Layout.ofCount? c.format.channels = some layout ∧
      Buffer.ofInterleaved samples layout (UInt32.ofNat c.format.rate) = .ok b := by
  unfold decode at h
  rw [hopen] at h
  simp only [Except.mapError, bind, Except.bind] at h
  cases hlayout : Layout.ofCount? c.format.channels with
  | none =>
    rw [hlayout] at h
    cases h
  | some layout =>
    rw [hlayout] at h
    cases hkind : c.format.kind? with
    | none =>
      rw [hkind] at h
      cases h
    | some kind =>
      cases hsamples : c.samples with
      | error fault =>
        simp only [hkind, hsamples] at h
        cases h
      | ok samples =>
        simp only [hkind, hsamples] at h
        cases samples with
        | nil => cases h
        | cons s rest =>
          refine ⟨s :: rest, layout, rfl, List.cons_ne_nil s rest, rfl, ?_⟩
          exact mapError_eq_ok_iff.mp h

lemma wholes_of_flatMap (hd : d ≠ .float) (b : Buffer) (samples : List Sample) :
    Content.wholes ⟨d.format b, samples.length, samples.flatMap d.sampleBytes⟩ =
      samples.map fun s => quantize d.bits s.value := by
  unfold Content.wholes
  change ((groups d.width samples.length (samples.flatMap d.sampleBytes)).getD []).map _ = _
  rw [groups_flatMap (length_sampleBytes d), Option.getD_some, List.map_map]
  exact List.map_congr_left fun s _ => signed_sampleBytes hd s

lemma bits_of_ne_float (hd : d ≠ .float) : d.bits = 16 ∨ d.bits = 24 :=
  (eq_of_ne_float hd).imp (fun h => by rw [h]; rfl) (fun h => by rw [h]; rfl)

lemma reread_ofWhole (hd : d ≠ .float) {v : Int} (hv : v.natAbs ≤ 2 ^ (d.bits - 1)) :
    d.reread (ofWhole d.bits v) = ofWhole d.bits (towardZero v) := by
  rw [reread_of_ne_float hd, quantize_ofWhole (bits_of_ne_float hd) hv]

/-- The numbers of a file of whole numbers have no more digits than its buffer can be written with,
and a second of it takes no more bytes. -/
lemma wholes_of_decode {path : String} {bytes : Bytes} {b : Buffer} (hd : d ≠ .float)
    (hopen : openFile bytes = .ok c) (hwhole : c.format.IsWhole d)
    (hdecode : decode path bytes = .ok b) :
    b.IsFilled ∧ b.interleaved? = some (c.wholes.map (ofWhole d.bits)) ∧
      (∀ v ∈ c.wholes, v.natAbs ≤ 2 ^ (d.bits - 1)) ∧ b.byteRate d.bits < UInt32.size := by
  obtain ⟨samples, layout, hsamples, hne, hlayout, hdealt⟩ := exists_of_decode hopen hdecode
  obtain ⟨hwholes, hwidth⟩ := samples_eq hwhole hd hsamples hne
  obtain ⟨hinterleaved, hsamerate, hchannels⟩ := Buffer.interleaved_of_ofInterleaved hdealt
  refine ⟨(delivers_decode path bytes).of_ok hdecode, by rw [hinterleaved, ← hwholes],
    fun v hv => ?_, ?_⟩
  · obtain ⟨piece, -, rfl⟩ := List.mem_map.mp hv
    rw [hwhole.2]
    exact natAbs_signed_le (bits_of_ne_float hd) _
  · have hrate : b.rate.toNat ≤ c.format.rate := by
      rw [hsamerate, UInt32.toNat_ofNat']
      exact Nat.mod_le _ _
    have hcount : b.channels.length = c.format.channels := by
      rw [hchannels, ← Layout.ofCount?_eq_some_iff.mp hlayout]
    calc b.byteRate d.bits = b.rate.toNat * d.width * c.format.channels := by rw [← hcount]; rfl
      _ ≤ c.format.byteRate := Nat.mul_le_mul_right _ (Nat.mul_le_mul hrate hwidth)
      _ < UInt32.size := (gives_openFile bytes c hopen).format.byteRate_lt

section Wholes

variable {b : Buffer} {values : List Int} (hd : d ≠ .float) (hb : b.IsRegular)
  (hinterleaved : b.interleaved? = some (values.map (ofWhole d.bits)))
  (hfew : ∀ v ∈ values, v.natAbs ≤ 2 ^ (d.bits - 1))

include hd hb hinterleaved hfew

/-- Where a buffer of whole numbers is written at their depth, each comes back one step nearer to
zero. -/
lemma wholes_of_encode {written : Bytes} (h : encode d b = .ok written) : ∃ c',
    openFile written = .ok c' ∧ c'.format.IsWhole d ∧ c'.wholes = values.map towardZero := by
  have hinteger : d.encoding = .integer := by
    rcases eq_of_ne_float hd with rfl | rfl <;> rfl
  refine ⟨_, openFile_encode hb hinterleaved h, ⟨hinteger, rfl⟩, ?_⟩
  rw [wholes_of_flatMap hd, List.map_map]
  exact List.map_congr_left fun v hv => quantize_ofWhole (bits_of_ne_float hd) (hfew v hv)

lemma map_reread_eq_self_iff : b.map d.reread = b ↔ ∀ v ∈ values, v = 0 := by
  rw [Buffer.map_eq_self_iff hb hinterleaved, List.forall_mem_map]
  refine forall₂_congr fun v hv => ?_
  rw [reread_ofWhole hd (hfew v hv), ofWhole_towardZero_iff (bits_of_ne_float hd) (hfew v hv)]

/-- Nothing changes where silence is added to whole numbers. -/
lemma map_zero_add_wholes : b.map (0 + ·) = b := by
  rw [Buffer.map_eq_self_iff hb hinterleaved, List.forall_mem_map]
  exact fun v hv => zero_add_ofWhole (bits_of_ne_float hd) (hfew v hv)

end Wholes

end Wave

namespace Mix

variable {b : Buffer}

lemma addChannel_silence (c : List Sample) :
    addChannel (List.replicate c.length 0) c = c.map (0 + ·) := by
  unfold addChannel
  rw [List.drop_of_length_le (by rw [List.length_replicate]), List.append_nil]
  induction c with
  | nil => rfl
  | cons x c ih => exact congrArg (_ :: ·) ih

/-- The sum of one regular buffer. -/
lemma sum_one (hb : b.IsRegular) (name : String) :
    longest [⟨name, b⟩] = b.length ∧ widest [⟨name, b⟩] = b.channels.length ∧
      sum [⟨name, b⟩] b.length b.channels.length = (b.map (0 + ·)).channels := by
  have hpad : b.padTo b.length = b := by
    obtain ⟨channels, rate⟩ := b
    refine congrArg (Buffer.mk · rate) ((List.map_congr_left fun c hc => ?_).trans (List.map_id _))
    rw [hb.lengths c hc, Nat.sub_self, List.replicate_zero, List.append_nil]
    rfl
  have hfit : fit b.length b.channels.length b = b := by
    rw [fit, if_neg (lt_irrefl _), hpad]
  have hsum : sum [⟨name, b⟩] b.length b.channels.length =
      addChannels (List.replicate b.channels.length (List.replicate b.length 0)) b.channels := by
    change addChannels _ (fit b.length b.channels.length b).channels = _
    rw [hfit]
  rw [hsum]
  obtain ⟨channels, rate⟩ := b
  rcases hb.count with hone | htwo
  · obtain ⟨c, rfl⟩ := List.length_eq_one_iff.mp hone
    exact ⟨Nat.zero_max _, rfl, congrArg ([·]) (addChannel_silence c)⟩
  · obtain ⟨left, right, rfl⟩ := List.length_eq_two.mp htwo
    have hlength : right.length = left.length := hb.lengths right (by simp)
    have hright := addChannel_silence right
    rw [hlength] at hright
    refine ⟨?_, rfl, ?_⟩
    · change max (max 0 left.length) right.length = left.length
      rw [hlength, Nat.zero_max, Nat.max_self]
    · change [addChannel (List.replicate left.length 0) left,
        addChannel (List.replicate left.length 0) right] = _
      rw [addChannel_silence, hright]
      rfl

end Mix

/-- The mix of one buffer that does not exceed the ceiling. -/
lemma mix_one {b : Buffer} (hb : b.IsRegular) (hsum : b.map (0 + ·) = b) {ceiling : Option Float32}
    (hlevel : ∀ c ∈ ceiling, ¬ c < b.peak) (name : String) :
    (mix [⟨name, b⟩] ceiling).result = .ok ⟨b, [name], 1⟩ := by
  obtain ⟨hlongest, hwidest, hchannels⟩ := Mix.sum_one hb name
  rw [hsum] at hchannels
  have hrate : [(⟨name, b⟩ : NamedBuffer)].find? (·.buffer.rate ≠ b.rate) = none := by simp
  apply mix_of_level hrate
  rw [hlongest, hwidest, hchannels]
  exact Mix.level_of_not_lt hlevel

/-- The recipe that saves a stem as it is. -/
def Recipe.passthrough (s : Stem) (name : String) : Recipe := ⟨[⟨.stem s, [], ⟨name, true⟩⟩]⟩

section Passthrough

variable {s : Stem} {name text input : String} {plan : Plan} {stems : StemMap Buffer} {b : Buffer}

lemma exists_execute_passthrough (hplan : Plan.ofRecipe (.passthrough s name) = .ok plan)
    (hs : stems.get? s = some b) (transforms : Transforms) :
    ∃ out, (execute plan stems transforms).result = .ok out ∧ out.saved = [⟨name, b⟩] := by
  have hkept : ((Recipe.passthrough s name).evaluate stems transforms).result =
      .ok [⟨⟨name, true⟩, b⟩] := by
    change (Evaluation.evaluateFrom transforms stems [] [_]).result = _
    rw [Evaluation.result_evaluateFrom_cons, Evaluation.result_evaluateStatement,
      Evaluation.input_stem_of_some hs]
    rfl
  exact Execution.exists_execute hplan hkept

/-- A render of a stem as it is. -/
lemma render_passthrough (htext : Recipe.ofText text = .ok (.passthrough s name))
    (hplan : (compile text).result = .ok plan) {renderer : Renderer}
    (hstems : (renderer.separator input).result = .ok stems) (hs : stems.get? s = some b)
    (hb : b.IsRegular) (hsum : b.map (0 + ·) = b)
    (hlevel : ∀ c ∈ renderer.settings.mixCeiling, ¬ c < b.peak) :
    ∃ rendered, (renderer.render text input).result = .ok rendered ∧ rendered.track.buffer = b := by
  have hrecipe : Plan.ofRecipe (.passthrough s name) = .ok plan := by
    obtain ⟨r, hr, hof⟩ := compile_eq_ok_iff.mp hplan
    rw [htext] at hr
    cases hr
    exact hof
  obtain ⟨out, hout, hsaved⟩ := exists_execute_passthrough hrecipe hs renderer.bank.apply
  rw [Renderer.result_render hplan, hstems]
  change ∃ rendered, ((execute plan stems renderer.bank.apply).result.mapError Error.runtime >>=
    _) = Except.ok rendered ∧ _
  rw [hout]
  change ∃ rendered, ((mix out.saved renderer.settings.mixCeiling).result.mapError Error.runtime >>=
    _) = Except.ok rendered ∧ _
  rw [hsaved, mix_one hb hsum hlevel]
  exact ⟨_, rfl, rfl⟩

/-- A render whose export gives a tree with a file at the output path gives this tree. -/
lemma renderToFile_of_render {f : Files} {path : String} {names : List String} {written : Bytes}
    {renderer : Renderer} {rendered : Rendered} (stamp : Stamp)
    (hrender : (renderer.render text input).result = .ok rendered)
    (htarget : f.target path = .ok names)
    (hexport : f.exportAudio path renderer.settings.bitDepth.toNat rendered.track.buffer =
      .ok (f.addFile names written)) :
    ∃ report, (renderer.renderToFile f stamp text input path).result =
      .ok (report, f.addFile names written) := by
  refine ⟨Report.ofRendered stamp input path rendered (hexText (Sha256.hash written)), ?_⟩
  unfold Renderer.renderToFile
  rw [Traced.result_bind_ok (Traced.result_tell _), Traced.result_bind_ok hrender, hexport]
  change (Traced.ofExcept ((f.addFile names written).checksum path) >>= _).result = _
  rw [checksum_addFile htarget]
  rfl

end Passthrough

namespace Files

variable {f : Files} {path : String} {b : Buffer}

lemma importAudio_of_read {bytes : Bytes} (h : f.read path = .ok bytes) :
    f.importAudio path = Wave.decode path bytes := by
  have hcontains : f.contains path = true := by
    unfold contains
    cases hentry : f.entry path with
    | error fault =>
      rw [read, hentry] at h
      cases h
    | ok e => rfl
  rw [importAudio, if_pos hcontains, h]

/-- With a place for the file, an export does what the encoding of the buffer does. -/
lemma exportAudio_of_target {names : List String} (htarget : f.target path = .ok names)
    (d : Wave.Depth) (b : Buffer) : f.exportAudio path d.bits b =
      ((Wave.encode d b).mapError Error.ofUnwritable).map (f.addFile names) := by
  have hdepth : Wave.Depth.ofBits? d.bits = some d := by cases d <;> rfl
  unfold exportAudio write
  rw [hdepth]
  dsimp only
  rw [htarget]
  cases Wave.encode d b <;> rfl

/-- A wave file of whole numbers, which its buffer is imported from. -/
def HoldsWholes (f : Files) (path : String) (d : Wave.Depth) (values : List Int) (b : Buffer) :
    Prop :=
  ∃ bytes content, f.read path = .ok bytes ∧ Wave.openFile bytes = .ok content ∧
    content.format.IsWhole d ∧ content.wholes = values ∧ f.importAudio path = .ok b

end Files

/-- A file of whole numbers of 16 or 24 bits that is imported and exported at its own depth holds
the same numbers, each one step nearer to zero. So the buffer is the same again only if it is
silent. A render of a recipe that saves the buffer as a stem, and does nothing else, writes the
same. The export breaks off where the samples leave no room for the header that they are given. -/
theorem reexport_towardZero (f : Files) (path path' : String) (d : Wave.Depth) (values : List Int)
    (b : Buffer) (names : List String) (hd : d ≠ .float) (h : f.HoldsWholes path d values b)
    (hrate : b.rate ≠ 0) (htarget : f.target path' = .ok names) :
    b.interleaved? = some (values.map (Wave.ofWhole d.bits)) ∧
    (UInt32.size + 8 ≤ Wave.fileSize d.bits b →
      f.exportAudio path' d.bits b = .error (.unwritable .tooLong)) ∧
    (Wave.fileSize d.bits b < UInt32.size + 8 → ∃ g b', f.exportAudio path' d.bits b = .ok g ∧
      g.HoldsWholes path' d (values.map Wave.towardZero) b' ∧ b'.SameShape b ∧
      (b' = b ↔ ∀ v ∈ values, v = 0) ∧
      ∀ (renderer : Renderer) (stamp : Stamp) (text input : String) (s : Stem) (name : String)
        (plan : Plan) (stems : StemMap Buffer),
        Recipe.ofText text = .ok (.passthrough s name) → (compile text).result = .ok plan →
        (renderer.separator input).result = .ok stems → stems.get? s = some b →
        renderer.settings.bitDepth.toNat = d.bits →
        (∀ c ∈ renderer.settings.mixCeiling, ¬ c < b.peak) →
        ∃ report, (renderer.renderToFile f stamp text input path').result = .ok (report, g)) := by
  obtain ⟨bytes, content, hread, hopen, hwhole, rfl, himport⟩ := h
  rw [Files.importAudio_of_read hread] at himport
  obtain ⟨hfilled, hinterleaved, hfew, hbyteRate⟩ := Wave.wholes_of_decode hd hopen hwhole himport
  have hregular := hfilled.toIsRegular
  have hwritten := Wave.encode_eq d hregular hinterleaved
  rw [if_neg hrate, if_neg (Nat.not_le.mpr hbyteRate)] at hwritten
  refine ⟨hinterleaved, fun hlong => ?_, fun hshort => ?_⟩
  · rw [Files.exportAudio_of_target htarget, hwritten, if_pos hlong]
    rfl
  rw [if_neg (Nat.not_le.mpr hshort)] at hwritten
  generalize Wave.fileOf _ _ = written at hwritten
  have hexport : f.exportAudio path' d.bits b = .ok (f.addFile names written) := by
    rw [Files.exportAudio_of_target htarget, hwritten]
    rfl
  obtain ⟨content', hopen', hwhole', hvalues⟩ :=
    Wave.wholes_of_encode hd hregular hinterleaved hfew hwritten
  have hback := (Files.isTarget_of_target htarget).read_addFile written
  refine ⟨f.addFile names written, b.map d.reread, hexport,
    ⟨written, content', hback, hopen', hwhole', hvalues, ?_⟩,
    Buffer.sameShape_map (fun _ => List.length_map _) b,
    Wave.map_reread_eq_self_iff hd hregular hinterleaved hfew, ?_⟩
  · rw [Files.importAudio_of_read hback, Wave.decode_encode hfilled hwritten]
  · intro renderer stamp text input s name plan stems htext hplan hstems hs hdepth hlevel
    have hsum := Wave.map_zero_add_wholes hd hregular hinterleaved hfew
    obtain ⟨rendered, hrender, hbuffer⟩ :=
      render_passthrough htext hplan hstems hs hregular hsum hlevel
    exact renderToFile_of_render stamp hrender htarget (by rw [hbuffer, hdepth, hexport])

/-- A folder with one stem: two samples of 16 bits, the numbers 1 and -3. -/
def quietVocals : Files :=
  Files.empty.addFile ["stems", "vocals.wav"]
    [0x52, 0x49, 0x46, 0x46, 40, 0, 0, 0, 0x57, 0x41, 0x56, 0x45, 0x66, 0x6d, 0x74, 0x20, 16, 0,
      0, 0, 1, 0, 1, 0, 0x40, 0x1f, 0, 0, 0x80, 0x3e, 0, 0, 2, 0, 16, 0, 0x64, 0x61, 0x74, 0x61,
      4, 0, 0, 0, 1, 0, 0xfd, 0xff]

theorem reexport_towardZero_quietVocals :
    let b : Buffer := ⟨[[⟨0x38000000⟩, ⟨0xb8c00000⟩]], 8000⟩
    let settings : Settings := { bitDepth := 16 }
    let renderer : Renderer := ⟨loadStems quietVocals none, settings.bank, settings⟩
    quietVocals.HoldsWholes "stems/vocals.wav" .sixteen [1, -3] b ∧
    ∃ g b', quietVocals.exportAudio "mix.wav" 16 b = .ok g ∧
      g.HoldsWholes "mix.wav" .sixteen [0, -2] b' ∧ b' ≠ b ∧
      ∃ report, (renderer.renderToFile quietVocals ⟨"", "", 0⟩ "vocals -> save(v);" "stems"
        "mix.wav").result = .ok (report, g) := by
  intro b settings renderer
  have hholds : quietVocals.HoldsWholes "stems/vocals.wav" .sixteen [1, -3] b :=
    ⟨_, ⟨⟨1, 8000, 2, 16, .integer⟩, 2, [1, 0, 0xfd, 0xff]⟩, rfl, by decide +kernel, ⟨rfl, rfl⟩,
      by decide +kernel, by decide +kernel⟩
  obtain ⟨-, -, hshort⟩ := reexport_towardZero quietVocals "stems/vocals.wav" "mix.wav" .sixteen
    [1, -3] b ["mix.wav"] (by decide) hholds (by decide) (by decide)
  obtain ⟨g, b', hexport, hagain, -, hsame, hrender⟩ := hshort (by decide)
  have hload : (renderer.separator "stems").result = .ok { vocals := some b } := by decide +kernel
  refine ⟨hholds, g, b', hexport, hagain, fun h => ?_, ?_⟩
  · exact absurd (hsame.mp h 1 (List.mem_cons_self ..)) (by decide)
  · exact hrender renderer ⟨"", "", 0⟩ "vocals -> save(v);" "stems" .vocals "v" vocalsOnlyPlan _
      (by decide) (by decide) hload rfl rfl (by decide +kernel)

/-- The quietest samples of a file are silent after a second import. -/
theorem reexport_loses_quietest :
    let b : Buffer := ⟨[[⟨0x38000000⟩, ⟨0xb8c00000⟩]], 8000⟩
    let quieter : Buffer := ⟨[[⟨0⟩, ⟨0xb8800000⟩]], 8000⟩
    quietVocals.importAudio "stems/vocals.wav" = .ok b ∧
    (quietVocals.exportAudio "mix.wav" 16 b >>= fun g => g.importAudio "mix.wav") =
      .ok quieter ∧ quieter ≠ b := by
  decide +kernel

end Remix
