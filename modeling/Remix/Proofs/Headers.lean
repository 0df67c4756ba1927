import Mathlib.Tactic.Common
import Remix.Wave.Reader
import Remix.Wave.Writer

/-!
# Headers of wave files

What is read from a header agrees with itself: the bytes of a second and those of all samples are
numbers that four bytes can tell, and the samples come in whole frames. A header that is written is
read back, in the short and in the long form, and the samples are found behind it.
-/

namespace Remix.Wave

/-- Whatever a computation gives has a property. -/
def Gives {ε α : Type} (P : α → Prop) (x : Except ε α) : Prop := ∀ a, x = .ok a → P a

namespace Gives

variable {ε α β : Type} {P : β → Prop}

lemma error (e : ε) : Gives P (.error e) := nofun

lemma ok {b : β} (h : P b) : Gives P (.ok b : Except ε β) := by
  rintro _ ⟨⟩
  exact h

lemma bind {x : Except ε α} {f : α → Except ε β} (h : ∀ a, x = .ok a → Gives P (f a)) :
    Gives P (x >>= f) := by
  cases x with
  | error e => exact error e
  | ok a => exact h a rfl

lemma require {p : Prop} [Decidable p] {flaw : Flaw} {f : Unit → Except Fault β}
    (h : p → Gives P (f ())) : Gives P (require (decide p) flaw >>= f) := by
  by_cases hp : p
  · rw [decide_eq_true hp]
    exact h hp
  · rw [decide_eq_false hp]
    exact error _

end Gives

lemma ofBytes_lt {bytes : Bytes} {width : Nat} (h : bytes.length = width) :
    ofBytes bytes < Nat.pow 256 width := by
  subst h
  induction bytes with
  | nil => decide
  | cons b bytes ih =>
    have hb := b.toNat_lt
    have hpow : Nat.pow 256 (b :: bytes).length = Nat.pow 256 bytes.length * 256 := rfl
    rw [ofBytes, hpow]
    omega

lemma number_lt {bytes : Bytes} {offset width n : Nat} (h : number bytes offset width = .ok n) :
    n < Nat.pow 256 width := by
  unfold number field at h
  dsimp only at h
  split at h
  · rename_i hwidth
    cases h
    exact ofBytes_lt hwidth
  · cases h

/-- A format in whose file the bytes of a second are fewer than four bytes can tell. -/
structure Format.IsSound (f : Format) : Prop where
  count_pos : 0 < f.channels
  byteRate_lt : f.byteRate < UInt32.size

lemma gives_readForm (length code : Nat) (common : Encoding → Format) (bytes : Bytes) :
    Gives (fun read => ∃ e bits, read.1 = { common e with bits })
      (readForm length code common bytes) := by
  unfold readForm
  split
  · refine .require fun _ => ?_
    dsimp only
    split
    · refine .bind fun _ _ => .require fun _ => .bind fun _ _ => .ok ⟨.integer, _, rfl⟩
    · exact .bind fun _ _ => .ok ⟨.integer, _, rfl⟩
  · split
    · refine .require fun _ => ?_
      dsimp only
      split
      · exact .bind fun _ _ => .require fun _ => .require fun _ => .ok ⟨.float, _, rfl⟩
      · exact .require fun _ => .ok ⟨.float, _, rfl⟩
    · split
      · refine .require fun _ => .bind fun _ _ => .require fun _ => .bind fun _ _ =>
          .bind fun identifier _ => ?_
        split
        · exact .error _
        · exact .ok ⟨_, _, rfl⟩
      · exact .error _

lemma gives_readFormat (length : Nat) (bytes : Bytes) :
    Gives (fun read => read.1.IsSound) (readFormat length bytes) := by
  unfold readFormat
  refine .require fun _ => .bind fun code _ => .bind fun channels _ => .bind fun rate _ =>
    .bind fun byteRate hbyteRate => .bind fun align _ => .bind fun bits _ =>
    .require fun hchannels => .require fun _ => .require fun hproduct => .require fun _ =>
    .require fun _ => ?_
  rintro ⟨f, size⟩ hread
  obtain ⟨e, bits', rfl⟩ := gives_readForm _ _ _ _ _ hread
  refine ⟨Nat.pos_of_ne_zero hchannels, ?_⟩
  calc rate * (align / channels) * channels = rate * (align / channels * channels) :=
        Nat.mul_assoc _ _ _
    _ ≤ rate * align := Nat.mul_le_mul_left _ (Nat.div_mul_le_self _ _)
    _ = byteRate := by rw [hproduct, Nat.mul_comm]
    _ < UInt32.size := number_lt hbyteRate

lemma gives_findData {format : Option Format} (hformat : ∀ f ∈ format, f.IsSound) (bytes : Bytes) :
    Gives (fun found => found.1.IsSound ∧ found.2.1 < UInt32.size) (findData format bytes) := by
  fun_induction findData format bytes with
  | case1 t₀ t₁ t₂ t₃ l₀ l₁ l₂ l₃ bytes tag length htag f =>
    have hlength : length < Nat.pow 256 4 := ofBytes_lt rfl
    exact .ok ⟨hformat f rfl, hlength⟩
  | case3 format t₀ t₁ t₂ t₃ l₀ l₁ l₂ l₃ bytes tag length hdata htag f size hread ih =>
    refine ih fun g hg => ?_
    cases hg
    exact gives_readFormat _ _ _ hread
  | case5 format t₀ t₁ t₂ t₃ l₀ l₁ l₂ l₃ bytes tag hdata hformatTag htag ih => exact ih hformat
  | case7 format t₀ t₁ t₂ t₃ l₀ l₁ l₂ l₃ bytes tag length hdata hformatTag hfact hlong ih =>
    exact ih hformat
  | case2 | case4 | case6 | case8 => exact .error _

/-- A content whose samples come in whole frames, with a header that has room for what it says. -/
structure Content.IsSound (c : Content) : Prop where
  format : c.format.IsSound
  size_lt : c.count * c.format.container < UInt32.size
  frames : c.count % c.format.channels = 0

lemma gives_openFile (bytes : Bytes) : Gives Content.IsSound (openFile bytes) := by
  unfold openFile
  refine .bind fun riff _ => .require fun _ => .bind fun _ _ => .bind fun wave _ =>
    .require fun _ => .bind fun found hfound => ?_
  obtain ⟨f, length, rest⟩ := found
  obtain ⟨hf, hlength⟩ := gives_findData (fun _ h => absurd h (Option.not_mem_none _)) _ _ hfound
  refine .require fun hsamples => .require fun hframes => .ok ⟨hf, ?_, hframes⟩
  exact Nat.lt_of_le_of_lt (Nat.div_mul_le_self _ _) hlength

/-- What a header can say of samples that are written: one or two channels, and a rate and a byte
rate that it has room for. -/
structure Format.IsWritable (f : Format) : Prop where
  count : f.channels = 1 ∨ f.channels = 2
  rate_pos : 0 < f.rate
  byteRate_lt : f.byteRate < UInt32.size
  depth : ∃ d : Depth, f.container = d.width ∧ f.bits = d.bits ∧ f.encoding = d.encoding

lemma require_bind {α : Type} {p : Prop} [Decidable p] (h : p) (flaw : Flaw)
    (f : Unit → Except Fault α) : (require (decide p) flaw >>= f) = f () := by
  rw [decide_eq_true h]
  rfl

lemma bind_of_ok {ε α β : Type} {x : Except ε α} {a : α} (h : x = .ok a) (f : α → Except ε β) :
    (x >>= f) = f a := by
  rw [h]
  rfl

lemma number_of_field {bytes : Bytes} {offset width n : Nat}
    (h : field bytes offset width = .ok (toBytes width n)) (hn : n < Nat.pow 256 width) :
    number bytes offset width = .ok n := by
  rw [number, h]
  change Except.ok (ofBytes (toBytes width n)) = _
  rw [ofBytes_toBytes, Nat.mod_eq_of_lt hn]

namespace Format.IsWritable

variable {f : Format}

lemma bits_eq (hf : f.IsWritable) :
    f.bits = 8 * f.container ∧ 1 < f.container ∧ f.container ≤ 4 := by
  obtain ⟨d, hcontainer, hbits, -⟩ := hf.depth
  rw [hcontainer, hbits]
  cases d <;> decide

lemma rate_lt (hf : f.IsWritable) : f.rate < UInt32.size := by
  obtain ⟨-, hcontainer, -⟩ := hf.bits_eq
  have hchannels : 0 < f.channels := by
    have := hf.count
    omega
  have hbyteRate := hf.byteRate_lt
  rw [Format.byteRate, Nat.mul_assoc] at hbyteRate
  exact Nat.lt_of_le_of_lt (Nat.le_mul_of_pos_right _ (Nat.mul_pos (by omega) hchannels)) hbyteRate

/-- The common fields of a format are read back, and what follows decides. -/
lemma readFormat_eq (hf : f.IsWritable) {length code : Nat} (hlength : 16 ≤ length)
    (hcode : code < Nat.pow 256 2) (rest : Bytes) :
    readFormat length (toBytes 2 code ++ (f.commonFields ++ rest)) =
      readForm length code (fun e => { f with encoding := e })
        (toBytes 2 code ++ (f.commonFields ++ rest)) := by
  obtain ⟨hbits, hcontainer, hcontainer'⟩ := hf.bits_eq
  have hcount := hf.count
  have hframe : f.container * f.channels < 256 := by
    rcases hcount with h | h <;> rw [h] <;> omega
  have halign : f.byteRate / f.rate = f.container * f.channels := by
    rw [Format.byteRate, Nat.mul_assoc, Nat.mul_div_cancel_left _ hf.rate_pos]
  generalize hbytes : toBytes 2 code ++ (f.commonFields ++ rest) = bytes
  have hcode : number bytes 0 2 = .ok code := number_of_field (by subst hbytes; rfl) hcode
  have hchannels : number bytes 2 2 = .ok f.channels :=
    number_of_field (by subst hbytes; rfl) (by change _ < 65536; omega)
  have hrate : number bytes 4 4 = .ok f.rate :=
    number_of_field (by subst hbytes; rfl) hf.rate_lt
  have hbyteRate : number bytes 8 4 = .ok f.byteRate :=
    number_of_field (by subst hbytes; rfl) hf.byteRate_lt
  have hframe' : number bytes 12 2 = .ok (f.container * f.channels) :=
    number_of_field (by subst hbytes; rw [← halign]; rfl) (by change _ < 65536; omega)
  have hwidth : number bytes 14 2 = .ok f.bits :=
    number_of_field (by subst hbytes; rfl) (by change _ < 65536; omega)
  have hdiv : f.container * f.channels / f.channels = f.container :=
    Nat.mul_div_cancel _ (by omega)
  have hproduct : f.byteRate = f.container * f.channels * f.rate := by
    rw [Format.byteRate, Nat.mul_assoc, Nat.mul_comm]
  have hfits : 8 * f.container < UInt16.size ∧ f.bits ≤ 8 * f.container :=
    ⟨by change _ < 65536; omega, Nat.le_of_eq hbits⟩
  unfold readFormat
  rw [require_bind hlength, bind_of_ok hcode, bind_of_ok hchannels, bind_of_ok hrate,
    bind_of_ok hbyteRate, bind_of_ok hframe', bind_of_ok hwidth, require_bind (by omega)]
  dsimp only
  rw [hdiv, require_bind hfits, require_bind hproduct, require_bind (by omega),
    require_bind (by omega)]

end Format.IsWritable

/-- The chunk of a format without its tag and its length. -/
def Format.fields (f : Format) : Bytes :=
  if f.bits ≤ 16 ∧ f.channels ≤ 2 then toBytes 2 integerCode ++ f.commonFields
  else
    toBytes 2 extensibleCode ++ (f.commonFields ++ (toBytes 2 22 ++ toBytes 2 f.bits ++
      toBytes 4 f.speakers ++ f.encoding.identifier))

lemma Format.chunk_eq (f : Format) :
    f.chunk = formatTag ++ toBytes 4 f.fields.length ++ f.fields := by
  unfold chunk fields
  split
  · rfl
  · cases f.encoding <;> rfl

namespace Format.IsWritable

variable {f : Format}

lemma encoding_of_short (hf : f.IsWritable) (hshort : f.bits ≤ 16) : f.encoding = .integer := by
  obtain ⟨d, -, hbits, hencoding⟩ := hf.depth
  rw [hencoding]
  rw [hbits] at hshort
  cases d with
  | sixteen => rfl
  | twentyFour => rfl
  | float => exact absurd hshort (by decide)

/-- A format is read back from its chunk. -/
lemma readFormat_fields (hf : f.IsWritable) (rest : Bytes) :
    readFormat f.fields.length (f.fields ++ rest) = .ok (f, f.fields.length) := by
  obtain ⟨hbits, hcontainer, hcontainer'⟩ := hf.bits_eq
  unfold fields
  by_cases hshort : f.bits ≤ 16 ∧ f.channels ≤ 2
  · have hlength : (toBytes 2 integerCode ++ f.commonFields).length = 16 := rfl
    rw [if_pos hshort, hlength, List.append_assoc, hf.readFormat_eq (by decide) (by decide)]
    change Except.ok ({ f with encoding := .integer }, 16) = _
    rw [← hf.encoding_of_short hshort.1]
  · have hlength : (toBytes 2 extensibleCode ++ (f.commonFields ++ (toBytes 2 22 ++
        toBytes 2 f.bits ++ toBytes 4 f.speakers ++ f.encoding.identifier))).length = 40 := by
      cases f.encoding <;> rfl
    rw [if_neg hshort, hlength, List.append_assoc, List.append_assoc,
      hf.readFormat_eq (by decide) (by decide)]
    generalize hbytes : toBytes 2 extensibleCode ++ (f.commonFields ++ ((toBytes 2 22 ++
      toBytes 2 f.bits ++ toBytes 4 f.speakers ++ f.encoding.identifier) ++ rest)) = bytes
    have hextension : number bytes 16 2 = .ok 22 :=
      number_of_field (by subst hbytes; rfl) (by decide)
    have hvalid : number bytes 18 2 = .ok f.bits :=
      number_of_field (by subst hbytes; rfl) (by change _ < 65536; omega)
    have hidentifier : field bytes 24 16 = .ok f.encoding.identifier := by
      subst hbytes
      cases f.encoding <;> rfl
    have hencoding : Encoding.ofIdentifier? f.encoding.identifier = some f.encoding := by
      cases f.encoding <;> rfl
    unfold readForm
    rw [if_neg (by decide), if_neg (by decide), if_pos rfl, require_bind (by decide),
      bind_of_ok hextension, require_bind rfl, bind_of_ok hvalid, bind_of_ok hidentifier, hencoding]
    dsimp only
    rw [ite_self]
    rfl

end Format.IsWritable

lemma exists_toBytes_four (n : Nat) : ∃ l₀ l₁ l₂ l₃, toBytes 4 n = [l₀, l₁, l₂, l₃] :=
  ⟨_, _, _, _, rfl⟩

lemma findData_format {length size : Nat} (hlength : length < UInt32.size) {bytes : Bytes}
    {f : Format} (hread : readFormat length bytes = .ok (f, size)) :
    findData none (formatTag ++ (toBytes 4 length ++ bytes)) =
      findData (some f) (bytes.drop size) := by
  have hbytes : ofBytes (toBytes 4 length) = length := by
    rw [ofBytes_toBytes, Nat.mod_eq_of_lt hlength]
  obtain ⟨l₀, l₁, l₂, l₃, hfour⟩ := exists_toBytes_four length
  rw [hfour] at hbytes ⊢
  change findData none (0x66 :: 0x6d :: 0x74 :: 0x20 :: l₀ :: l₁ :: l₂ :: l₃ :: bytes) = _
  rw [findData]
  rw [if_neg (by decide), if_pos (by decide), hbytes, hread]

lemma findData_data (f : Format) {length : Nat} (hlength : length < UInt32.size) (bytes : Bytes) :
    findData (some f) (dataTag ++ (toBytes 4 length ++ bytes)) = .ok (f, length, bytes) := by
  have hbytes : ofBytes (toBytes 4 length) = length := by
    rw [ofBytes_toBytes, Nat.mod_eq_of_lt hlength]
  obtain ⟨l₀, l₁, l₂, l₃, hfour⟩ := exists_toBytes_four length
  rw [hfour] at hbytes ⊢
  change findData (some f) (0x64 :: 0x61 :: 0x74 :: 0x61 :: l₀ :: l₁ :: l₂ :: l₃ :: bytes) = _
  rw [findData]
  rw [if_pos (by decide), hbytes]

/-- The content of a file that is written is what was written. -/
lemma openFile_fileOf {f : Format} (hf : f.IsWritable) {count : Nat} {samples : Bytes}
    (hlength : samples.length = count * f.container) (hsize : samples.length < UInt32.size)
    (hframes : count % f.channels = 0) :
    openFile (fileOf f samples) = .ok ⟨f, count, samples⟩ := by
  obtain ⟨-, hcontainer, -⟩ := hf.bits_eq
  have hchunk : f.fields.length < UInt32.size := by
    unfold Format.fields
    split
    · exact (by decide : 16 < UInt32.size)
    · cases f.encoding <;> exact (by decide : 40 < UInt32.size)
  have hlayout : (fileOf f samples).drop 12 = formatTag ++ (toBytes 4 f.fields.length ++
      (f.fields ++ (dataTag ++ (toBytes 4 samples.length ++ samples)))) := by
    unfold fileOf
    dsimp only
    rw [f.chunk_eq]
    simp only [List.append_assoc]
    rfl
  have hdata : findData none ((fileOf f samples).drop 12) = .ok (f, samples.length, samples) := by
    rw [hlayout, findData_format hchunk (hf.readFormat_fields _), List.drop_left,
      findData_data f hsize]
  have hriff : field (fileOf f samples) 0 4 = .ok riffTag := rfl
  obtain ⟨size, hsize'⟩ : ∃ size, field (fileOf f samples) 4 4 = .ok size := ⟨_, rfl⟩
  have hwave : field (fileOf f samples) 8 4 = .ok waveTag := rfl
  have hcount : samples.length / f.container = count := by
    rw [hlength, Nat.mul_div_cancel _ (by omega)]
  unfold openFile
  rw [bind_of_ok hriff, require_bind rfl, bind_of_ok hsize', bind_of_ok hwave, require_bind rfl,
    bind_of_ok hdata]
  dsimp only
  rw [require_bind (by rw [hlength, Nat.mul_mod_left]), hcount, require_bind hframes]
  rfl

end Remix.Wave
