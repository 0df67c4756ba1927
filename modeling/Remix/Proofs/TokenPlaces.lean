import Remix.Proofs.Excerpts

/-!
# The places of tokens

A place is told in three ways: by the bytes before it, by the line and the column that the scanner
counts, and as one of the characters of one of the lines of the text. `Text.IsPlaceOf` says that the
three agree, and the tokens of a text, as well as a character that is part of none, are where their
places say. Tokens follow one another without overlap.
-/

namespace Remix

open Text (Placed Position IsWhole lines isBlank)

namespace Text

/-- The characters `piece` stand in a text at `p`, behind `before`: as many bytes and line feeds are
before them as `p` says, as many characters are between the last line feed and them, and they begin
with the character that is found by line and column. -/
structure IsPlaceOf (text before piece : String) (p : Position) : Prop where
  exists_append : ∃ behind, text = before ++ piece ++ behind
  isValid : String.Pos.Raw.IsValid text ⟨p.offset⟩
  offset : p.offset = before.utf8ByteSize
  eq_endOf : p = .endOf before
  line : p.line = 1 + before.toList.count '\n'
  column : p.column = 1 + (before.toList.reverse.takeWhile (· ≠ '\n')).length
  shown : ∃ row c, (lines text.toList)[p.line - 1]? = some row ∧
    row[p.column - 1]? = some c ∧ piece.toList.head? = some c

namespace Position

lemma offset_after (p : Position) (cs : List Char) :
    (p.after cs).offset = p.offset + (String.ofList cs).utf8ByteSize := by
  induction cs generalizing p with
  | nil => rfl
  | cons c cs ih =>
    have hadvance : (p.advance c).offset = p.offset + c.utf8Size := by
      unfold advance
      split <;> rfl
    rw [after_cons, ih, hadvance, String.ofList_cons, String.utf8ByteSize_append,
      String.utf8ByteSize_singleton, Nat.add_assoc]

/-- A column is counted from the last line feed on. -/
lemma column_after_start (cs : List Char) :
    (start.after cs).column = 1 + (cs.reverse.takeWhile (· ≠ '\n')).length := by
  obtain ⟨whole, line, rfl, hwhole, hline⟩ := exists_lastLine cs
  have htake : (whole ++ line).reverse.takeWhile (· ≠ '\n') = line.reverse := by
    have hall : ∀ c ∈ line.reverse, decide (c ≠ '\n') = true := by
      intro c hc
      refine decide_eq_true ?_
      rintro rfl
      exact hline (List.mem_reverse.mp hc)
    have hstop : whole.reverse.takeWhile (· ≠ '\n') = [] := by
      cases hreverse : whole.reverse with
      | nil => rfl
      | cons c rest =>
        have hc : c = '\n' := hwhole c (by rw [← List.head?_reverse, hreverse]; rfl)
        exact List.takeWhile_cons_of_neg (by simp [hc])
    rw [List.reverse_append, List.takeWhile_append_of_pos hall, hstop, List.append_nil]
  rw [htake, after_append, column_after _ hline, column_after_whole hwhole, List.length_reverse]

end Position

/-- What is not blank is found where the text before it ends. -/
lemma isPlaceOf_endOf (before piece : String) {c : Char} (hc : piece.toList.head? = some c)
    (hblank : ¬isBlank c) (behind : String) :
    IsPlaceOf (before ++ piece ++ behind) before piece (.endOf before) := by
  have hstands : (piece ++ behind).toList.head? = some c := by simp [hc]
  have hfeed : (piece ++ behind).toList.head? ≠ some '\n' := by
    rw [hstands]
    rintro ⟨⟩
    exact hblank (by decide)
  have hsome : ¬((piece ++ behind).toList = [] ∧ IsWhole before.toList) := by
    rintro ⟨hnil, -⟩
    rw [hnil] at hstands
    cases hstands
  obtain ⟨whole, line, more, rest, hbefore, hbehind, -, -, hrest, hcolumn, hget⟩ :=
    exists_divided_line hfeed hsome
  -- Nothing that ends a line begins with a character that is not blank.
  obtain ⟨more', rfl⟩ : ∃ more', more = c :: more' := by
    rw [hbehind] at hstands
    cases more with
    | cons d more' =>
      cases hstands
      exact ⟨more', rfl⟩
    | nil =>
      exfalso
      rw [List.nil_append] at hstands
      rcases hrest with rfl | ⟨ds, rfl⟩ | ⟨ds, rfl⟩
      · cases hstands
      · cases hstands
        exact hblank (by decide)
      · cases hstands
        exact hblank (by decide)
  have htext : (before ++ piece ++ behind).toList = before.toList ++ (piece ++ behind).toList := by
    simp
  have hoffset : (Position.endOf before).offset = before.utf8ByteSize :=
    Position.offset_endOf before
  refine ⟨⟨behind, rfl⟩, ?_, hoffset, rfl, Position.line_after _ _, Position.column_after_start _,
    line ++ c :: more', c, ?_, ?_, hc⟩
  · rw [hoffset, String.append_assoc]
    exact String.Pos.Raw.isValid_iff_exists_append.mpr ⟨before, piece ++ behind, rfl, rfl⟩
  · rw [htext]
    exact hget
  · have hcolumn' : (Position.endOf before).column = line.length + 1 := hcolumn
    rw [hcolumn', Nat.add_sub_cancel, List.getElem?_append_right (Nat.le_refl _), Nat.sub_self]
    rfl

end Text

namespace Recipe

open Text (IsPlaceOf)

variable {p : Position} {cs : List Char} {ts : List (Placed Token)} {text : String}

lemma Token.Fits.size_pos {k : Token} {behind : List Char} (h : k.Fits behind) :
    0 < k.text.utf8ByteSize := by
  obtain ⟨c, cs, htext, -⟩ := h.exists_head
  refine Nat.pos_of_ne_zero fun hzero => ?_
  rw [String.utf8ByteSize_eq_zero_iff.mp hzero] at htext
  cases htext

/-- The next token begins where the bytes of a token end, or later. -/
lemma Laid.offsets (h : Laid p cs ts) : (∀ t ∈ ts, p.offset ≤ t.position.offset) ∧
    ts.Pairwise fun t u => t.position.offset + t.value.text.utf8ByteSize ≤ u.position.offset := by
  induction h with
  | nil => exact ⟨nofun, .nil⟩
  | @blank p c cs ts hc h ih =>
    refine ⟨fun t ht => Nat.le_trans ?_ (ih.1 t ht), ih.2⟩
    have hafter := Position.offset_after p [c]
    rw [Position.after_cons, Position.after_nil] at hafter
    omega
  | @token p k cs ts hk h ih =>
    have hafter := Position.offset_after p k.text.toList
    rw [String.ofList_toList] at hafter
    rw [hafter] at ih
    refine ⟨fun t ht => ?_, .cons ih.1 ih.2⟩
    rcases List.mem_cons.mp ht with rfl | ht
    · exact Nat.le_refl _
    · exact Nat.le_trans (Nat.le_add_right _ _) (ih.1 t ht)

lemma exists_isPlaceOf_of_mem (h : tokens text = .ok ts) {t : Placed Token} (ht : t ∈ ts) :
    ∃ before, IsPlaceOf text before t.value.text t.position := by
  obtain ⟨before, behind, htext, hposition, hfits⟩ := (tokens_eq_ok_iff.mp h).exists_of_mem ht
  obtain ⟨c, cs, hc, hblank⟩ := hfits.exists_head
  have hplace := Text.isPlaceOf_endOf (.ofList before) t.value.text
    (by rw [hc]; rfl) hblank (.ofList behind)
  have hsame : String.ofList before ++ t.value.text ++ String.ofList behind = text := by
    apply String.toList_injective
    simp [htext]
  rw [hsame, Position.endOf, String.toList_ofList, ← hposition] at hplace
  exact ⟨_, hplace⟩

lemma exists_isPlaceOf_of_error {e : SyntaxError} (h : tokens text = .error e) :
    ∃ c before, e.fault = .unexpectedChar c ∧
      IsPlaceOf text before (String.singleton c) e.position := by
  obtain ⟨before, c, behind, htext, -, hunfit, rfl⟩ := exists_unfit_of_tokens h
  have hplace := Text.isPlaceOf_endOf (.ofList before) (String.singleton c) (c := c)
    (by simp) hunfit.not_blank (.ofList behind)
  have hsame : String.ofList before ++ String.singleton c ++ String.ofList behind = text := by
    apply String.toList_injective
    simp [htext]
  rw [hsame, Position.endOf, String.toList_ofList] at hplace
  exact ⟨c, _, rfl, hplace⟩

/-- The reader finds no fault in characters. -/
def Stage.KnowsTokens : Stage → Prop
  | .stopped e => ∀ c, e.fault ≠ .unexpectedChar c
  | _ => True

namespace Reader

variable {r : Reader}

lemma knowsTokens_step (h : r.stage.KnowsTokens) (t : Placed Token) :
    (r.step t).stage.KnowsTokens := by
  obtain ⟨clauses, stage⟩ := r
  obtain ⟨kind, p⟩ := t
  cases stage with
  | stopped e => exact h
  | _ =>
    cases kind <;> simp only [step] <;> (repeat' split) <;>
      simp [Stage.KnowsTokens, goto, stop, unexpected, complete]

lemma knowsTokens_run (h : r.stage.KnowsTokens) (ts : List (Placed Token)) :
    (r.run ts).stage.KnowsTokens := by
  induction ts generalizing r with
  | nil => exact h
  | cons t ts ih => exact ih (knowsTokens_step h t)

lemma ne_unexpectedChar_of_faultAtEnd {p : Position} {e : SyntaxError} (h : r.stage.KnowsTokens)
    (he : r.faultAtEnd p = some e) (c : Char) : e.fault ≠ .unexpectedChar c := by
  rcases faultAtEnd_cases he with hstage | ⟨hend, -⟩ | ⟨o, w, q, a, -, rfl⟩
  · rw [hstage] at h
    exact h c
  · intro hfault
    rw [hfault] at hend
    exact hend
  · exact nofun

end Reader

/-- A fault in a character is one of the scanner. -/
lemma tokens_error_of_parse {e : SyntaxError} {c : Char} (h : parse text = .error e)
    (hfault : e.fault = .unexpectedChar c) : tokens text = .error e := by
  cases htokens : tokens text with
  | error e' =>
    unfold parse read at h
    rw [htokens] at h
    cases h
    rfl
  | ok ts =>
    have hreader := faultAtEnd_of_parse htokens h
    have hknows := Reader.knowsTokens_run (r := .initial) trivial ts
    exact absurd hfault (Reader.ne_unexpectedChar_of_faultAtEnd hknows hreader c)

/-- Tokens, and characters that are part of none, are where their places say, by their offset as by
their line and column, and each token begins behind the bytes of the one before. -/
theorem token_places (text : String) :
    (∀ ts, tokens text = .ok ts →
      (∀ t ∈ ts, ∃ before, IsPlaceOf text before t.value.text t.position) ∧
      ts.Pairwise fun t u => t.position.offset < u.position.offset ∧
        t.position.offset + t.value.text.utf8ByteSize ≤ u.position.offset) ∧
    (∀ e, tokens text = .error e → ∃ c, e.fault = .unexpectedChar c) ∧
    ∀ e c, tokens text = .error e ∨ parse text = .error e → e.fault = .unexpectedChar c →
      ∃ before, IsPlaceOf text before (String.singleton c) e.position := by
  refine ⟨fun ts hts => ⟨fun t ht => exists_isPlaceOf_of_mem hts ht, ?_⟩, ?_, ?_⟩
  · have hlaid := tokens_eq_ok_iff.mp hts
    refine hlaid.offsets.2.imp_of_mem fun {t u} ht _ hle => ⟨?_, hle⟩
    obtain ⟨-, behind, -, -, hfits⟩ := hlaid.exists_of_mem ht
    exact Nat.lt_of_lt_of_le (Nat.lt_add_of_pos_right hfits.size_pos) hle
  · intro e he
    obtain ⟨c, -, hc, -⟩ := exists_isPlaceOf_of_error he
    exact ⟨c, hc⟩
  · intro e c he hfault
    have htokens : tokens text = .error e := he.elim id fun h => tokens_error_of_parse h hfault
    obtain ⟨d, before, hd, hplace⟩ := exists_isPlaceOf_of_error htokens
    rw [hfault] at hd
    cases hd
    exact ⟨before, hplace⟩

/-- A character that takes three bytes is one column, and the end of a line may take two. -/
example : tokens "\u2003x\r\n;" = .ok [⟨.word "x", ⟨3, 1, 2⟩⟩, ⟨.semicolon, ⟨6, 2, 1⟩⟩] := by
  decide

end Recipe

end Remix
