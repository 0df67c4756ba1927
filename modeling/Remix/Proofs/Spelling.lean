import Mathlib.Data.List.Chain
import Mathlib.Tactic.Common
import Remix.Proofs.Places

/-!
# How a text is spelled

A text that forms tokens is spelled by them, with gaps of blank characters before, between and
behind them, and nothing of it is lost: `Spelling` takes the whole text apart. A layout goes on for
as long as a word can, while a spelling asks for a gap between two tokens that would run into one.
The two come to the same, and `Spelling.placed` are the tokens of the text at their places.
-/

namespace Remix.Recipe

open Text (Placed Position isBlank)

def IsGap (gap : String) : Prop := ∀ c ∈ gap.toList, isBlank c

/-- Tokens written one after the other, each with the gap behind it. -/
def spell : List (Token × String) → String
  | [] => ""
  | (k, gap) :: pieces => k.text ++ gap ++ spell pieces

/-- Whether a token does not run into the next one. The gap behind a word may not be empty where
letters follow. -/
def Separated : Token × String → Token × String → Prop
  | (.word _, gap), (.word _, _) => gap ≠ ""
  | (.word _, gap), (.saveOpen, _) => gap ≠ ""
  | _, _ => True

/-- A text taken apart into tokens and the gaps around them. -/
structure Spelling (text : String) where
  lead : String
  pieces : List (Token × String)
  text_eq : lead ++ spell pieces = text
  isGap_lead : IsGap lead
  isGap : ∀ x ∈ pieces, IsGap x.2
  isWord : ∀ x ∈ pieces, ∀ letters, x.1 = .word letters → IsWord letters
  separated : pieces.IsChain Separated

namespace Spelling

variable {text : String}

def kinds (s : Spelling text) : List Token := s.pieces.map Prod.fst

/-- The text before token `j`. -/
def before (s : Spelling text) (j : Nat) : String := s.lead ++ spell (s.pieces.take j)

/-- The tokens of a spelling, each where the text before it ends. -/
def placed (s : Spelling text) : List (Placed Token) :=
  s.pieces.mapIdx fun j x => ⟨x.1, .endOf (s.before j)⟩

lemma map_value_placed (s : Spelling text) : s.placed.map (·.value) = s.kinds := by
  apply List.ext_getElem
  · simp [placed, kinds]
  · intro j hj hj'
    simp [placed, kinds]

lemma offset_placed (s : Spelling text) {j : Nat} (hj : j < s.placed.length) :
    s.placed[j].position.offset = (s.before j).utf8ByteSize := by
  simp [placed, Position.offset_endOf]

end Spelling

variable {p : Position} {cs ds : List Char} {ts : List (Placed Token)}

lemma Laid.gap {gap : String} (hgap : IsGap gap) (h : Laid (p.after gap.toList) ds ts) :
    Laid p (gap.toList ++ ds) ts := by
  unfold IsGap at hgap
  generalize gap.toList = cs at hgap h ⊢
  induction cs generalizing p with
  | nil => exact h
  | cons c cs ih =>
    obtain ⟨hc, hcs⟩ := List.forall_mem_cons.mp hgap
    exact .blank hc (ih hcs h)

lemma isWordChar_eq_false {c : Char} (h : isBlank c) : isWordChar c = false := by
  cases hc : isWordChar c with
  | false => rfl
  | true =>
    rw [isBlank_eq_false hc] at h
    cases h

/-- A token that may follow a word without a gap does not begin like one. -/
lemma Separated.exists_head {letters : String} {x : Token × String}
    (h : Separated (.word letters, "") x) : ∃ c cs, x.1.text.toList = c :: cs ∧ ¬isWordChar c := by
  obtain ⟨k, gap⟩ := x
  dsimp only
  cases k with
  | word _ => exact absurd rfl h
  | saveOpen => exact absurd rfl h
  | arrow => exact ⟨'-', ['>'], rfl, by decide⟩
  | closeParen => exact ⟨')', [], rfl, by decide⟩
  | semicolon => exact ⟨';', [], rfl, by decide⟩

/-- A word that is kept apart from what follows ends where its letters do. -/
lemma Token.fits_of_separated {k : Token} {gap : String} {pieces : List (Token × String)}
    (hgap : IsGap gap) (hword : ∀ letters, k = .word letters → IsWord letters)
    (hseparated : ((k, gap) :: pieces).IsChain Separated) :
    k.Fits (gap ++ spell pieces).toList := by
  cases k with
  | word letters =>
    refine ⟨hword letters rfl, ?_⟩
    intro c hc
    rw [String.toList_append] at hc
    by_cases hempty : gap = ""
    · subst hempty
      cases pieces with
      | nil => simp [spell] at hc
      | cons x pieces =>
        obtain ⟨d, ds, hd, hnot⟩ := (List.isChain_cons_cons.mp hseparated).1.exists_head
        obtain rfl : d = c := by simpa [spell, hd] using hc
        exact hnot
    · obtain ⟨d, ds, hd⟩ := List.exists_cons_of_ne_nil (mt String.toList_eq_nil_iff.mp hempty)
      have hblank : isBlank d := hgap d (by simp [hd])
      obtain rfl : d = c := by simpa [hd] using hc
      simp [isWordChar_eq_false hblank]
  | _ => trivial

/-- Tokens and gaps that are written one after the other are laid out as these tokens. -/
lemma laid_spell {lead : String} {pieces : List (Token × String)} (hlead : IsGap lead)
    (hgap : ∀ x ∈ pieces, IsGap x.2)
    (hword : ∀ x ∈ pieces, ∀ letters, x.1 = .word letters → IsWord letters)
    (hseparated : pieces.IsChain Separated) :
    Laid p (lead ++ spell pieces).toList (pieces.mapIdx fun j x =>
      ⟨x.1, p.after (lead ++ spell (pieces.take j)).toList⟩) := by
  -- The gap behind a token is what leads the rest.
  induction pieces generalizing p lead with
  | nil =>
    rw [String.toList_append]
    exact Laid.gap hlead .nil
  | cons x pieces ih =>
    obtain ⟨k, gap⟩ := x
    obtain ⟨hgap, hgaps⟩ := List.forall_mem_cons.mp hgap
    obtain ⟨hword, hwords⟩ := List.forall_mem_cons.mp hword
    have hfits := Token.fits_of_separated hgap hword hseparated
    have hrest := ih (p := (p.after lead.toList).after k.text.toList) hgap hgaps hwords
      (List.isChain_of_isChain_cons hseparated)
    have hlaid := Laid.gap hlead (.token hfits hrest)
    simpa [spell, Position.after_append] using hlaid

lemma Spelling.mem_head_of_lead_eq_empty (s : Spelling (String.ofList cs)) (hlead : s.lead = "")
    {x : Token × String} (hx : x ∈ s.pieces.head?) {c : Char} (hc : c ∈ x.1.text.toList.head?) :
    c ∈ cs.head? := by
  obtain ⟨pieces, hpieces⟩ := List.head?_eq_some_iff.mp hx
  have htext := congrArg String.toList s.text_eq
  simp only [hlead, hpieces, spell, String.toList_append, String.toList_ofList] at htext
  rw [← htext]
  simp [Option.mem_def.mp hc]

/-- Where a token fits, it is kept apart from the tokens that follow. -/
lemma Token.Fits.separated {k : Token} (h : k.Fits cs) (s : Spelling (String.ofList cs)) :
    ((k, s.lead) :: s.pieces).IsChain Separated := by
  apply List.isChain_cons.mpr
  refine ⟨?_, s.separated⟩
  rintro ⟨k', gap'⟩ hx
  cases k with
  | word letters =>
    obtain ⟨-, hstop⟩ := h
    cases k' with
    | word letters' =>
      intro hlead
      obtain ⟨hne, hall⟩ := s.isWord _ (List.mem_of_mem_head? hx) letters' rfl
      have hc := List.head?_eq_some_head hne
      exact hstop _ (s.mem_head_of_lead_eq_empty hlead hx hc) (hall _ (List.head_mem hne))
    | saveOpen =>
      intro hlead
      have hc : 's' ∈ Token.saveOpen.text.toList.head? := by decide
      exact hstop 's' (s.mem_head_of_lead_eq_empty hlead hx hc) (by decide)
    | _ => trivial
  | _ => trivial

/-- A text that is laid out as tokens is spelled by them. -/
lemma Laid.exists_spelling (h : Laid p cs ts) :
    ∃ s : Spelling (String.ofList cs), s.kinds = ts.map (·.value) := by
  induction h with
  | nil => exact ⟨⟨"", [], rfl, nofun, nofun, nofun, .nil⟩, rfl⟩
  | @blank p c cs ts hc h ih =>
    obtain ⟨s, hs⟩ := ih
    refine ⟨⟨String.ofList [c] ++ s.lead, s.pieces, ?_, ?_, s.isGap, s.isWord, s.separated⟩, hs⟩
    · rw [String.append_assoc, s.text_eq, ← String.ofList_append, List.singleton_append]
    · intro d hd
      rcases (by simpa using hd : d = c ∨ d ∈ s.lead.toList) with rfl | hd
      · exact hc
      · exact s.isGap_lead d hd
  | @token p k cs ts hk h ih =>
    obtain ⟨s, hs⟩ := ih
    refine ⟨⟨"", (k, s.lead) :: s.pieces, ?_, nofun, ?_, ?_, hk.separated s⟩, ?_⟩
    · simp [spell, String.append_assoc, s.text_eq]
    · exact List.forall_mem_cons.mpr ⟨s.isGap_lead, s.isGap⟩
    · intro x hx letters hletters
      rcases List.mem_cons.mp hx with rfl | hx
      · obtain rfl : k = .word letters := hletters
        exact hk.1
      · exact s.isWord x hx letters hletters
    · simp [Spelling.kinds, ← hs]

section Tokens

variable {text : String}

lemma tokens_of_spelling (s : Spelling text) : tokens text = .ok s.placed := by
  apply tokens_eq_ok_iff.mpr
  have hlaid := laid_spell (p := .start) s.isGap_lead s.isGap s.isWord s.separated
  rw [s.text_eq] at hlaid
  exact hlaid

/-- The tokens of a text are those of its spelling, at their places. -/
lemma tokens_eq_ok_iff_spelling : tokens text = .ok ts ↔ ∃ s : Spelling text, s.placed = ts := by
  constructor
  · intro h
    obtain ⟨s, -⟩ := (tokens_eq_ok_iff.mp h).exists_spelling
    rw [String.ofList_toList] at s
    exact ⟨s, Except.ok.inj ((tokens_of_spelling s).symm.trans h)⟩
  · rintro ⟨s, rfl⟩
    exact tokens_of_spelling s

/-- A text without a spelling has one up to a character that does not fit. -/
lemma exists_unfit_of_isEmpty (h : IsEmpty (Spelling text)) :
    ∃ before c behind position, text = before ++ String.singleton c ++ behind ∧
      tokens text = .error ⟨.unexpectedChar c, position⟩ ∧
      position.offset = before.utf8ByteSize ∧ (∃ ts, tokens before = .ok ts) ∧
      IsUnfit c behind.toList := by
  cases htokens : tokens text with
  | ok ts =>
    obtain ⟨s, -⟩ := tokens_eq_ok_iff_spelling.mp htokens
    exact h.elim s
  | error e =>
    obtain ⟨before, c, behind, htext, ⟨ts, hts⟩, hc, rfl⟩ := exists_unfit_of_tokens htokens
    refine ⟨String.ofList before, c, String.ofList behind, _, ?_, rfl, ?_, ⟨ts, ?_⟩, ?_⟩
    · apply String.toList_injective
      simp [htext]
    · rw [← Position.offset_endOf, Position.endOf, String.toList_ofList]
    · apply tokens_eq_ok_iff.mpr
      rwa [String.toList_ofList]
    · rwa [String.toList_ofList]

/-- The tokens of a text are what it is spelled by, and each stands behind the bytes of the text
before it. A text that has no spelling has a fault at the first character that does not fit. -/
theorem tokens_exact (text : String) :
    (∀ ks, (∃ ts, tokens text = .ok ts ∧ ts.map (·.value) = ks) ↔
      ∃ s : Spelling text, s.kinds = ks) ∧
    (∀ s s' : Spelling text, s.kinds = s'.kinds) ∧
    (∀ (s : Spelling text) (ts : List (Placed Token)), tokens text = .ok ts →
      ∀ j (hj : j < ts.length), ts[j].position.offset = (s.before j).utf8ByteSize) ∧
    (IsEmpty (Spelling text) → ∃ before c behind position,
      text = before ++ String.singleton c ++ behind ∧
      tokens text = .error ⟨.unexpectedChar c, position⟩ ∧
      position.offset = before.utf8ByteSize ∧ (∃ ts, tokens before = .ok ts) ∧
      IsUnfit c behind.toList) := by
  have hplaced : ∀ (s : Spelling text) (ts : List (Placed Token)), tokens text = .ok ts →
      ts = s.placed := by
    intro s ts hts
    exact Except.ok.inj (hts.symm.trans (tokens_of_spelling s))
  refine ⟨?_, ?_, ?_, exists_unfit_of_isEmpty⟩
  · intro ks
    constructor
    · rintro ⟨ts, hts, rfl⟩
      obtain ⟨s, rfl⟩ := tokens_eq_ok_iff_spelling.mp hts
      exact ⟨s, s.map_value_placed.symm⟩
    · rintro ⟨s, rfl⟩
      exact ⟨s.placed, tokens_of_spelling s, s.map_value_placed⟩
  · intro s s'
    rw [← s.map_value_placed, ← s'.map_value_placed, hplaced s' _ (tokens_of_spelling s)]
  · intro s ts hts j hj
    obtain rfl := hplaced s ts hts
    exact s.offset_placed hj

end Tokens

end Remix.Recipe
