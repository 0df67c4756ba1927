import Mathlib.Data.List.Induction
import Remix.Proofs.Grammar
import Remix.Proofs.Layout

/-!
# Where faults stand

A fault shows at a character of the text or, where the text ends too early, behind the last one.
The scanner stops at the first character that is part of no token, and what stands before it is
laid out as tokens. The reader stops at a token: `Stage.Within` says that whatever place it
remembers is the place of a token that it has taken.
-/

namespace Remix

open Text (Placed Position isBlank)

/-- The character `c` of `cs` stands at `p`. -/
def Text.Stands (cs : List Char) (p : Position) (c : Char) : Prop :=
  ∃ before behind, cs = before ++ c :: behind ∧ p = Position.start.after before

namespace Recipe

/-- Characters that no token has. -/
def IsForeign (c : Char) : Prop :=
  ¬isBlank c ∧ ¬isWordChar c ∧ c ≠ ';' ∧ c ≠ ')' ∧ c ≠ '-'

/-- A character in front of `behind` that is neither blank nor the beginning of a token. -/
def IsUnfit (c : Char) (behind : List Char) : Prop :=
  (c = '-' ∧ behind.head? ≠ some '>') ∨ IsForeign c

lemma IsUnfit.not_blank {c : Char} {behind : List Char} (h : IsUnfit c behind) : ¬isBlank c := by
  rcases h with ⟨rfl, -⟩ | h
  · decide
  · exact h.1

namespace Scanner

variable {s : Scanner} {c : Char} {cs : List Char} {q : Position} {e : SyntaxError}

lemma position_start (h : ∀ e, (s.start c).pending ≠ .stopped e) :
    (s.start c).position = s.position.advance c := by
  unfold start at h ⊢
  split_ifs at h ⊢
  iterate 5 rfl
  exact absurd rfl (h _)

lemma position_step (h : ∀ e, (s.step c).pending ≠ .stopped e) :
    (s.step c).position = s.position.advance c := by
  obtain ⟨p, pending, found⟩ := s
  cases pending with
  | stopped e => exact absurd rfl (h e)
  | nothing => exact position_start h
  | dash q =>
    simp only [step] at h ⊢
    split_ifs at h ⊢
    · rfl
    · exact absurd rfl (h _)
  | word q letters =>
    simp only [step] at h ⊢
    split_ifs at h ⊢
    · rfl
    · rfl
    · exact position_start h

lemma pending_run_of_stopped (h : s.pending = .stopped e) (cs : List Char) :
    s.run cs = s := by
  obtain ⟨p, pending, found⟩ := s
  cases h
  exact run_stopped cs

/-- A scanner that does not stop is behind the characters that it has taken. -/
lemma position_run (h : ∀ e, (s.run cs).pending ≠ .stopped e) :
    (s.run cs).position = s.position.after cs := by
  induction cs generalizing s with
  | nil => rfl
  | cons c cs ih =>
    have hstep : ∀ e, (s.step c).pending ≠ .stopped e := by
      intro e he
      apply h e
      rw [run_cons, pending_run_of_stopped he, he]
    rw [run_cons] at h ⊢
    rw [ih h, position_step hstep, Position.after_cons]

lemma dash_of_start (h : (s.start c).pending = .dash q) : c = '-' ∧ q = s.position := by
  unfold start at h
  split_ifs at h with _ _ _ hdash
  cases h
  exact ⟨hdash, rfl⟩

lemma dash_of_step (h : (s.step c).pending = .dash q) :
    c = '-' ∧ q = s.position ∧ ∃ ts, s.finish = .ok ts := by
  obtain ⟨p, pending, found⟩ := s
  cases pending with
  | stopped e => cases h
  | nothing =>
    obtain ⟨hc, hq⟩ := dash_of_start h
    exact ⟨hc, hq, _, rfl⟩
  | dash p' =>
    simp only [step] at h
    split_ifs at h
  | word p' letters =>
    simp only [step] at h
    split_ifs at h
    obtain ⟨hc, hq⟩ := dash_of_start h
    exact ⟨hc, hq, _, rfl⟩

lemma stopped_of_start (h : (s.start c).pending = .stopped e) :
    IsForeign c ∧ e = ⟨.unexpectedChar c, s.position⟩ := by
  unfold start at h
  split_ifs at h with hblank hsemicolon hparen hdash hword
  cases h
  exact ⟨⟨hblank, hword, hsemicolon, hparen, hdash⟩, rfl⟩

/-- The scanner stops behind a dash, which belongs to no arrow, or at a foreign character. -/
lemma stopped_of_step (hs : ∀ e, s.pending ≠ .stopped e) (h : (s.step c).pending = .stopped e) :
    (∃ q, s.pending = .dash q ∧ c ≠ '>' ∧ e = ⟨.unexpectedChar '-', q⟩) ∨
      (IsForeign c ∧ e = ⟨.unexpectedChar c, s.position⟩ ∧ ∃ ts, s.finish = .ok ts) := by
  obtain ⟨p, pending, found⟩ := s
  cases pending with
  | stopped e => exact absurd rfl (hs e)
  | nothing =>
    obtain ⟨hc, he⟩ := stopped_of_start h
    exact .inr ⟨hc, he, _, rfl⟩
  | dash p' =>
    simp only [step] at h
    split_ifs at h with hc
    cases h
    exact .inl ⟨p', rfl, hc, rfl⟩
  | word p' letters =>
    simp only [step] at h
    split_ifs at h
    obtain ⟨hc, he⟩ := stopped_of_start h
    exact .inr ⟨hc, he, _, rfl⟩

lemma position_of_finish {ts : List (Placed Token)} (h : (initial.run cs).finish = .ok ts) :
    (initial.run cs).position = Position.start.after cs := by
  apply position_run
  intro e he
  rw [finish, he] at h
  cases h

lemma exists_of_dash (h : (initial.run cs).pending = .dash q) :
    ∃ before, cs = before ++ ['-'] ∧ q = Position.start.after before ∧
      ∃ ts, (initial.run before).finish = .ok ts := by
  induction cs using List.reverseRecOn with
  | nil => cases h
  | append_singleton before c =>
    rw [run_append] at h
    obtain ⟨rfl, rfl, ts, hts⟩ := dash_of_step h
    exact ⟨before, rfl, position_of_finish hts, ts, hts⟩

/-- Where the scanner has stopped, whatever follows. -/
lemma exists_of_stopped (h : (initial.run cs).pending = .stopped e) :
    ∃ before c behind, cs = before ++ c :: behind ∧ (∀ more, IsUnfit c (behind ++ more)) ∧
      e = ⟨.unexpectedChar c, Position.start.after before⟩ ∧
      ∃ ts, (initial.run before).finish = .ok ts := by
  -- From the right, since it is the last character but one or two that matters.
  induction cs using List.reverseRecOn with
  | nil => cases h
  | append_singleton cs d ih =>
    by_cases hstopped : ∃ e', (initial.run cs).pending = .stopped e'
    · obtain ⟨e', he'⟩ := hstopped
      rw [run_append, pending_run_of_stopped he', he'] at h
      cases h
      obtain ⟨before, c, behind, rfl, hunfit, he, hfinish⟩ := ih he'
      refine ⟨before, c, behind ++ [d], by simp, fun more => ?_, he, hfinish⟩
      rw [List.append_assoc]
      exact hunfit _
    · have hgoes : ∀ e', (initial.run cs).pending ≠ .stopped e' := by
        simpa using hstopped
      rw [run_append] at h
      rcases stopped_of_step hgoes h with ⟨q, hq, hd, rfl⟩ | ⟨hd, rfl, ts, hts⟩
      · obtain ⟨before, rfl, rfl, hfinish⟩ := exists_of_dash hq
        refine ⟨before, '-', [d], by simp, fun more => .inl ⟨rfl, ?_⟩, rfl, hfinish⟩
        simpa using hd
      · rw [position_of_finish hts]
        exact ⟨cs, d, [], rfl, fun more => .inr hd, rfl, ts, hts⟩

end Scanner

lemma exists_laid {cs : List Char} {ts : List (Placed Token)}
    (h : (Scanner.initial.run cs).finish = .ok ts) : Laid .start cs ts := by
  have htokens : tokens (String.ofList cs) = .ok ts := by simpa [tokens] using h
  simpa using tokens_eq_ok_iff.mp htokens

/-- A text that does not form tokens is laid out as tokens up to a character that does not fit. -/
theorem exists_unfit_of_tokens {text : String} {e : SyntaxError} (h : tokens text = .error e) :
    ∃ before c behind, text.toList = before ++ c :: behind ∧ (∃ ts, Laid .start before ts) ∧
      IsUnfit c behind ∧ e = ⟨.unexpectedChar c, Position.start.after before⟩ := by
  unfold tokens Scanner.finish at h
  cases hpending : (Scanner.initial.run text.toList).pending with
  | nothing =>
    rw [hpending] at h
    cases h
  | word p letters =>
    rw [hpending] at h
    cases h
  | dash q =>
    rw [hpending] at h
    cases h
    obtain ⟨before, hcs, rfl, ts, hts⟩ := Scanner.exists_of_dash hpending
    exact ⟨before, '-', [], hcs, ⟨ts, exists_laid hts⟩, .inl ⟨rfl, nofun⟩, rfl⟩
  | stopped e' =>
    rw [hpending] at h
    cases h
    obtain ⟨before, c, behind, hcs, hunfit, he, ts, hts⟩ := Scanner.exists_of_stopped hpending
    have hc : IsUnfit c behind := by simpa using hunfit []
    exact ⟨before, c, behind, hcs, ⟨ts, exists_laid hts⟩, hc, he⟩

/-- A token stands where its characters begin. -/
lemma Laid.exists_of_mem {p : Position} {cs : List Char} {ts : List (Placed Token)}
    (h : Laid p cs ts) {t : Placed Token} (ht : t ∈ ts) :
    ∃ before behind, cs = before ++ (t.value.text.toList ++ behind) ∧
      t.position = p.after before ∧ t.value.Fits behind := by
  induction h with
  | nil => cases ht
  | @blank p c cs ts hc _ ih =>
    obtain ⟨before, behind, rfl, hposition, hfits⟩ := ih ht
    exact ⟨c :: before, behind, rfl, hposition, hfits⟩
  | @token p k cs ts hk _ ih =>
    rcases List.mem_cons.mp ht with rfl | ht
    · exact ⟨[], cs, rfl, rfl, hk⟩
    · obtain ⟨before, behind, rfl, hposition, hfits⟩ := ih ht
      refine ⟨k.text.toList ++ before, behind, by simp, ?_, hfits⟩
      rw [hposition, Position.after_append]

lemma Token.Fits.exists_head {k : Token} {behind : List Char} (h : k.Fits behind) :
    ∃ c cs, k.text.toList = c :: cs ∧ ¬isBlank c := by
  cases k with
  | word letters =>
    obtain ⟨⟨hne, hall⟩, -⟩ := h
    obtain ⟨c, cs, hletters⟩ := List.exists_cons_of_ne_nil hne
    have hc : isWordChar c := hall c (by simp [hletters])
    exact ⟨c, cs, hletters, by simp [isBlank_eq_false hc]⟩
  | arrow => exact ⟨'-', ['>'], rfl, by decide⟩
  | saveOpen => exact ⟨'s', ['a', 'v', 'e', '('], rfl, by decide⟩
  | closeParen => exact ⟨')', [], rfl, by decide⟩
  | semicolon => exact ⟨';', [], rfl, by decide⟩

lemma Laid.exists_stands {cs : List Char} {ts : List (Placed Token)} (h : Laid .start cs ts)
    {t : Placed Token} (ht : t ∈ ts) : ∃ c, Text.Stands cs t.position c ∧ ¬isBlank c := by
  obtain ⟨before, behind, rfl, hposition, hfits⟩ := h.exists_of_mem ht
  obtain ⟨c, cs, htext, hc⟩ := hfits.exists_head
  exact ⟨c, ⟨before, cs ++ behind, by simp [htext], hposition⟩, hc⟩

/-- The faults of a text that ends too early. -/
def SyntaxFault.IsAtEnd : SyntaxFault → Prop
  | .emptyRecipe | .unexpectedEnd _ => True
  | _ => False

/-- The place that a stage remembers for a fault is one of `ps`. -/
def Stage.Within (ps : List Position) : Stage → Prop
  | .word _ _ p | .saveName _ p | .saveClose _ _ p | .terminator _ _ p => p ∈ ps
  | .stopped e => e.position ∈ ps ∧ ¬e.fault.IsAtEnd
  | _ => True

namespace Reader

variable {r : Reader} {ps : List Position} {clauses : List Clause} {o : Opening} {w : String}
  {q : Position}

lemma within_stop {fault : SyntaxFault} {p : Position} (hp : p ∈ ps) (hfault : ¬fault.IsAtEnd) :
    (r.stop fault p).stage.Within ps := ⟨hp, hfault⟩

lemma within_unexpected (t : Placed Token) (expected : String) :
    (r.unexpected t expected).stage.Within (ps ++ [t.position]) :=
  within_stop (by simp) id

lemma within_source (t : Placed Token) :
    (step ⟨clauses, .source⟩ t).stage.Within (ps ++ [t.position]) := by
  have ht : t.position ∈ ps ++ [t.position] := by simp
  obtain ⟨kind, p⟩ := t
  cases kind with
  | word w =>
    simp only [step]
    cases Action.ofKeyword? w with
    | some a => exact within_stop ht id
    | none => trivial
  | _ => exact within_unexpected _ _

lemma within_word (hq : q ∈ ps) (t : Placed Token) :
    (step ⟨clauses, .word o w q⟩ t).stage.Within (ps ++ [t.position]) := by
  have hq' : q ∈ ps ++ [t.position] := List.mem_append_left _ hq
  obtain ⟨kind, p⟩ := t
  simp only [step]
  cases Action.ofKeyword? w with
  | some a =>
    cases kind with
    | arrow => trivial
    | _ => exact within_stop hq' id
  | none =>
    cases kind with
    | arrow => exact within_stop hq' id
    | semicolon => trivial
    | _ => exact within_unexpected _ _

lemma within_saveName (hq : q ∈ ps) (t : Placed Token) :
    (step ⟨clauses, .saveName o q⟩ t).stage.Within (ps ++ [t.position]) := by
  have hq' : q ∈ ps ++ [t.position] := List.mem_append_left _ hq
  obtain ⟨kind, p⟩ := t
  cases kind with
  | word w =>
    simp only [step]
    split_ifs
    · exact within_unexpected _ _
    · exact hq'
  | closeParen => exact within_stop hq' id
  | _ => exact within_unexpected _ _

/-- The place of a token is the only one that it adds. -/
lemma within_step (h : r.stage.Within ps) (t : Placed Token) :
    (r.step t).stage.Within (ps ++ [t.position]) := by
  have ht : t.position ∈ ps ++ [t.position] := by simp
  have hold : ∀ q ∈ ps, q ∈ ps ++ [t.position] := fun q => List.mem_append_left _
  obtain ⟨clauses, stage⟩ := r
  cases stage with
  | source => exact within_source t
  | word o w q => exact within_word h t
  | saveName o q => exact within_saveName h t
  | stopped e => exact ⟨hold _ h.1, h.2⟩
  | firstArrow o =>
    obtain ⟨kind, p⟩ := t
    cases kind with
    | arrow => trivial
    | semicolon => exact within_stop ht id
    | _ => exact within_unexpected _ _
  | step o =>
    obtain ⟨kind, p⟩ := t
    cases kind with
    | word w => exact ht
    | saveOpen => exact ht
    | closeParen => exact within_unexpected _ _
    | _ => exact within_stop ht id
  | saveClose o name q =>
    obtain ⟨kind, p⟩ := t
    cases kind with
    | closeParen => exact hold q h
    | _ => exact within_unexpected _ _
  | terminator o sink q =>
    obtain ⟨kind, p⟩ := t
    cases kind with
    | arrow => exact within_stop (hold q h) id
    | semicolon => trivial
    | _ => exact within_unexpected _ _

lemma within_initial : initial.stage.Within [] := trivial

lemma within_run (h : r.stage.Within ps) (ts : List (Placed Token)) :
    (r.run ts).stage.Within (ps ++ ts.map (·.position)) := by
  induction ts generalizing r ps with
  | nil => simpa using h
  | cons t ts ih => simpa using ih (within_step h t)

/-- A fault at the end is that of a reader that has stopped, one of a text that ends too early or
an action in place of a sink. -/
lemma faultAtEnd_cases {e : SyntaxError} {p : Position} (he : r.faultAtEnd p = some e) :
    r.stage = .stopped e ∨ (e.fault.IsAtEnd ∧ e.position = p) ∨
      ∃ o w q a, r.stage = .word o w q ∧ e = ⟨.actionAsSink a, q⟩ := by
  obtain ⟨clauses, stage⟩ := r
  cases stage with
  | stopped e' =>
    cases he
    exact .inl rfl
  | source =>
    simp only [faultAtEnd] at he
    split_ifs at he
    cases he
    exact .inr (.inl ⟨trivial, rfl⟩)
  | word o w q =>
    cases ha : Action.ofKeyword? w with
    | some a =>
      simp only [faultAtEnd, ha] at he
      cases he
      exact .inr (.inr ⟨o, w, q, a, rfl, rfl⟩)
    | none =>
      simp only [faultAtEnd, ha] at he
      cases he
      exact .inr (.inl ⟨trivial, rfl⟩)
  | _ =>
    cases he
    exact .inr (.inl ⟨trivial, rfl⟩)

lemma faultAtEnd_place {e : SyntaxError} {p : Position} (h : r.stage.Within ps)
    (he : r.faultAtEnd p = some e) :
    (e.fault.IsAtEnd ∧ e.position = p) ∨ (¬e.fault.IsAtEnd ∧ e.position ∈ ps) := by
  rcases faultAtEnd_cases he with hstage | hend | ⟨o, w, q, a, hstage, rfl⟩
  · rw [hstage] at h
    exact .inr h.symm
  · exact .inl hend
  · rw [hstage] at h
    exact .inr ⟨id, h⟩

end Reader

/-- A fault of a text that forms tokens is that of the reader behind them. -/
lemma faultAtEnd_of_parse {text : String} {ts : List (Placed Token)} {e : SyntaxError}
    (htokens : tokens text = .ok ts) (h : parse text = .error e) :
    (Reader.initial.run ts).faultAtEnd (.endOf text) = some e := by
  unfold parse read at h
  rw [htokens] at h
  simp only [Reading.statements, readTokens] at h
  split at h
  · rename_i e' he'
    cases h
    exact he'
  · cases h

/-- A text that ends too early has its fault at the end, any other at a character that is not
blank. -/
theorem place_of_parse {text : String} {e : SyntaxError} (h : parse text = .error e) :
    (e.fault.IsAtEnd ∧ e.position = .endOf text) ∨
      (¬e.fault.IsAtEnd ∧ ∃ c, Text.Stands text.toList e.position c ∧ ¬isBlank c) := by
  cases htokens : tokens text with
  | error e' =>
    unfold parse read at h
    rw [htokens] at h
    cases h
    obtain ⟨before, c, behind, htext, -, hc, rfl⟩ := exists_unfit_of_tokens htokens
    exact .inr ⟨id, c, ⟨before, behind, htext, rfl⟩, hc.not_blank⟩
  | ok ts =>
    have hfault := faultAtEnd_of_parse htokens h
    have hwithin := Reader.within_run Reader.within_initial ts
    rcases Reader.faultAtEnd_place hwithin hfault with hend | ⟨hfault, hplace⟩
    · exact .inl hend
    · obtain ⟨t, ht, hposition⟩ := List.mem_map.mp (by simpa using hplace)
      have hlaid := tokens_eq_ok_iff.mp htokens
      exact .inr ⟨hfault, hposition ▸ hlaid.exists_stands ht⟩

end Recipe

end Remix
