import Mathlib.Tactic.Common
import Remix.Recipe.Scanner

/-!
# The layout of tokens in a text

A text is laid out as tokens with blank characters around them, where a word goes on as long as it
can. The scanner finds the tokens of exactly the texts that are laid out in this way.
`Pending.Holds` is its invariant: it says which characters the scanner has taken of a token that is
not complete.
-/

namespace Remix.Recipe

open Text (Placed Position isBlank blankRanges)

/-- Words are nonempty runs of ASCII letters and digits. -/
def IsWord (w : String) : Prop := w.toList ≠ [] ∧ ∀ c ∈ w.toList, isWordChar c

instance (w : String) : Decidable (IsWord w) :=
  decidable_of_iff (w.toList ≠ [] ∧ w.toList.all isWordChar) (by simp [IsWord])

/-- Whether a token can stand in front of the characters `cs`. -/
def Token.Fits : Token → List Char → Prop
  | .word letters, cs => IsWord letters ∧ ∀ c ∈ cs.head?, ¬isWordChar c
  | _, _ => True

/-- The characters `cs`, the first of which stands at `p`, are laid out as the tokens `ts`. -/
inductive Laid : Position → List Char → List (Placed Token) → Prop where
  | nil {p : Position} : Laid p [] []
  | blank {p : Position} {c : Char} {cs : List Char} {ts : List (Placed Token)} (hc : isBlank c)
      (h : Laid (p.advance c) cs ts) : Laid p (c :: cs) ts
  | token {p : Position} {k : Token} {cs : List Char} {ts : List (Placed Token)} (hk : k.Fits cs)
      (h : Laid (p.after k.text.toList) cs ts) : Laid p (k.text.toList ++ cs) (⟨k, p⟩ :: ts)

lemma isWordChar_iff {c : Char} :
    isWordChar c ↔
      ('A' ≤ c ∧ c ≤ 'Z') ∨ ('a' ≤ c ∧ c ≤ 'z') ∨ ('0' ≤ c ∧ c ≤ '9') := by
  change (decide ('A' ≤ c ∧ c ≤ 'Z') || decide ('a' ≤ c) && decide (c ≤ 'z') ||
    decide ('0' ≤ c) && decide (c ≤ '9')) = true ↔ _
  simp only [Bool.or_eq_true, Bool.and_eq_true, decide_eq_true_eq]
  exact or_assoc

lemma isBlank_eq_false {c : Char} (h : isWordChar c) : isBlank c = false := by
  simp only [isWordChar_iff, Char.le_def, UInt32.le_iff_toNat_le] at h
  change (65 ≤ c.toNat ∧ c.toNat ≤ 90) ∨ (97 ≤ c.toNat ∧ c.toNat ≤ 122) ∨
    (48 ≤ c.toNat ∧ c.toNat ≤ 57) at h
  simp only [isBlank, blankRanges, List.any_cons, List.any_nil, Bool.or_false,
    Bool.or_eq_false_iff, Bool.and_eq_false_iff, decide_eq_false_iff_not]
  omega

lemma Laid.not_openParen {p : Position} {cs : List Char} {ts : List (Placed Token)} :
    ¬Laid p ('(' :: cs) ts := by
  intro h
  generalize hds : '(' :: cs = ds at h
  cases h with
  | nil => cases hds
  | blank hc h =>
    cases hds
    revert hc
    decide
  | @token p k cs' ts hk h =>
    cases k with
    | word letters =>
      obtain ⟨⟨hne, hall⟩, -⟩ := hk
      obtain ⟨d, ds, hletters⟩ := List.exists_cons_of_ne_nil hne
      have hd := hall d (by simp [hletters])
      simp only [Token.text, hletters, List.cons_append, List.cons.injEq] at hds
      rw [← hds.1] at hd
      revert hd
      decide
    | _ => simp [Token.text] at hds

namespace Scanner

variable {p q : Position} {c : Char} {letters : String} {found : List (Placed Token)}

lemma start_blank (hc : isBlank c) :
    start ⟨p, .nothing, found⟩ c = ⟨p.advance c, .nothing, found⟩ := by
  simp [start, hc]

lemma start_wordChar (hc : isWordChar c) :
    start ⟨p, .nothing, found⟩ c = ⟨p.advance c, .word p (String.ofList [c]), found⟩ := by
  have hblank := isBlank_eq_false hc
  have hsemicolon : c ≠ ';' := by rintro rfl; revert hc; decide
  have hparen : c ≠ ')' := by rintro rfl; revert hc; decide
  have hdash : c ≠ '-' := by rintro rfl; revert hc; decide
  simp [start, hblank, hsemicolon, hparen, hdash, hc]

lemma run_word {cs : List Char} (hcs : ∀ c ∈ cs, isWordChar c) :
    run ⟨p, .word q letters, found⟩ cs =
      ⟨p.after cs, .word q (letters ++ String.ofList cs), found⟩ := by
  induction cs generalizing p letters with
  | nil => simp
  | cons c cs ih =>
    obtain ⟨hc, hcs⟩ := List.forall_mem_cons.mp hcs
    have hstep : step ⟨p, .word q letters, found⟩ c =
        ⟨p.advance c, .word q (letters.push c), found⟩ := by
      simp [step, hc]
    have hpush : letters.push c ++ String.ofList cs = letters ++ String.ofList (c :: cs) := by
      apply String.toList_injective
      simp
    rw [run_cons, hstep, ih hcs, hpush, Position.after_cons]

lemma run_of_isWord (h : IsWord letters) :
    run ⟨p, .nothing, found⟩ letters.toList =
      ⟨p.after letters.toList, .word p letters, found⟩ := by
  obtain ⟨hne, hall⟩ := h
  obtain ⟨c, cs, hletters⟩ := List.exists_cons_of_ne_nil hne
  rw [hletters] at hall
  obtain ⟨hc, hcs⟩ := List.forall_mem_cons.mp hall
  have hwhole : String.ofList [c] ++ String.ofList cs = letters := by
    apply String.toList_injective
    simp [hletters]
  rw [hletters, run_cons]
  change run (start _ c) cs = _
  rw [start_wordChar hc, run_word hcs, hwhole, Position.after_cons]

lemma finish_run_word {cs : List Char} (hword : ∀ c ∈ cs.head?, ¬isWordChar c)
    (hparen : ∀ c ∈ cs.head?, c ≠ '(') :
    (run ⟨p, .word q letters, found⟩ cs).finish =
      (run ⟨p, .nothing, ⟨.word letters, q⟩ :: found⟩ cs).finish := by
  cases cs with
  | nil => rfl
  | cons c cs =>
    have hc := hword c rfl
    have hc' := hparen c rfl
    have hstep : step ⟨p, .word q letters, found⟩ c =
        step ⟨p, .nothing, ⟨.word letters, q⟩ :: found⟩ c := by
      simp [step, hc, hc']
    rw [run_cons, run_cons, hstep]

lemma run_stopped {e : SyntaxError} (cs : List Char) :
    run ⟨p, .stopped e, found⟩ cs = ⟨p, .stopped e, found⟩ := by
  induction cs with
  | nil => rfl
  | cons c cs ih => exact ih

end Scanner

lemma Laid.finish_run {p : Position} {cs : List Char} {ts : List (Placed Token)}
    (h : Laid p cs ts) (found : List (Placed Token)) :
    (Scanner.run ⟨p, .nothing, found⟩ cs).finish = .ok (found.reverse ++ ts) := by
  induction h generalizing found with
  | nil => simp [Scanner.finish]
  | blank hc _ ih =>
    rw [Scanner.run_cons]
    change (Scanner.run (Scanner.start _ _) _).finish = _
    rw [Scanner.start_blank hc, ih]
  | @token p k cs ts hk h ih =>
    have hfound : (⟨k, p⟩ :: found).reverse ++ ts = found.reverse ++ ⟨k, p⟩ :: ts := by simp
    rw [← hfound, ← ih, Scanner.run_append]
    cases k with
    | word letters =>
      obtain ⟨hletters, hstop⟩ := hk
      -- After `save` a parenthesis would belong to the word, but no layout goes on with one.
      have hparen : ∀ c ∈ cs.head?, c ≠ '(' := by
        rintro c hc rfl
        obtain ⟨cs', rfl⟩ := List.head?_eq_some_iff.mp hc
        exact Laid.not_openParen h
      rw [Token.text, Scanner.run_of_isWord hletters, Scanner.finish_run_word hstop hparen]
    | _ => rfl

/-- The characters that the scanner has taken of a token, and where they start. -/
inductive Pending.Holds : Pending → Position → List Char → Prop where
  | nothing {p : Position} : Pending.Holds .nothing p []
  | dash {p : Position} : Pending.Holds (.dash p) p ['-']
  | word {p : Position} {letters : String} (h : IsWord letters) :
      Pending.Holds (.word p letters) p letters.toList

namespace Scanner

/-- The scanner has taken the characters `cs`, which start at `p`: whatever layout what is pending
has with the characters that follow is the rest of a layout of the whole. -/
def Explains (s : Scanner) (p : Position) (cs : List Char) : Prop :=
  ∃ q pre, s.pending.Holds q pre ∧ s.position = q.after pre ∧
    ∀ rest us, Laid q (pre ++ rest) us → Laid p (cs ++ rest) (s.found.reverse ++ us)

variable {p q : Position} {c : Char} {cs : List Char} {found : List (Placed Token)}

lemma explains_initial : initial.Explains .start [] :=
  ⟨.start, [], .nothing, rfl, fun _ _ h => h⟩

lemma explains_token {k : Token} (hk : ∀ rest, k.Fits rest)
    (h : ∀ rest us, Laid q (k.text.toList ++ rest) us → Laid p (cs ++ rest) (found.reverse ++ us)) :
    Explains ⟨q.after k.text.toList, .nothing, ⟨k, q⟩ :: found⟩ p cs := by
  refine ⟨_, [], .nothing, rfl, fun rest us hrest => ?_⟩
  rw [List.reverse_cons, List.append_assoc]
  exact h rest _ (.token (hk rest) hrest)

lemma explains_start
    (h : ∀ rest us, Laid q (c :: rest) us → Laid p (cs ++ rest) (found.reverse ++ us)) :
    (∃ e, (start ⟨q, .nothing, found⟩ c).pending = .stopped e) ∨
      (start ⟨q, .nothing, found⟩ c).Explains p cs := by
  unfold start
  split_ifs with hblank hsemicolon hparen hdash hword
  · exact .inr ⟨_, [], .nothing, rfl, fun rest us hrest => h rest us (.blank hblank hrest)⟩
  · subst hsemicolon
    exact .inr (explains_token (k := .semicolon) (fun _ => trivial) h)
  · subst hparen
    exact .inr (explains_token (k := .closeParen) (fun _ => trivial) h)
  · subst hdash
    exact .inr ⟨q, ['-'], .dash, rfl, h⟩
  · have hc : IsWord (String.ofList [c]) := by simp [IsWord, hword]
    refine .inr ⟨q, _, .word hc, ?_, ?_⟩
    · simp
    · simpa using h
  · exact .inl ⟨_, rfl⟩

lemma Explains.step {s : Scanner} (h : s.Explains p cs) (c : Char) :
    (∃ e, (s.step c).pending = .stopped e) ∨ (s.step c).Explains p (cs ++ [c]) := by
  obtain ⟨position, pending, found⟩ := s
  obtain ⟨q, pre, hpending, hposition, hlaid⟩ := h
  have hnext : ∀ rest us, Laid q (pre ++ c :: rest) us →
      Laid p (cs ++ [c] ++ rest) (found.reverse ++ us) := by
    intro rest us hrest
    rw [← List.append_cons]
    exact hlaid _ us hrest
  cases hpending with
  | nothing =>
    subst hposition
    exact explains_start hnext
  | dash =>
    by_cases hc : c = '>'
    · subst hc hposition
      exact .inr (explains_token (k := .arrow) (fun _ => trivial) hnext)
    · exact .inl ⟨⟨.unexpectedChar '-', q⟩, by simp [Scanner.step, hc]⟩
  | @word _ letters hletters =>
    subst hposition
    simp only [Scanner.step]
    split_ifs with hword hopen
    · have hpush : IsWord (letters.push c) := by
        obtain ⟨-, hall⟩ := hletters
        refine ⟨by simp, fun d hd => ?_⟩
        rcases (by simpa using hd : d ∈ letters.toList ∨ d = c) with hd | rfl
        · exact hall d hd
        · exact hword
      refine .inr ⟨q, _, .word hpush, ?_, ?_⟩
      · simp [Position.after_append]
      · simpa using hnext
    · obtain ⟨rfl, rfl⟩ := hopen
      exact .inr (explains_token (k := .saveOpen) (fun _ => trivial) hnext)
    · -- The word ends here, so `c` is taken as if nothing had been pending.
      apply explains_start
      intro rest us hrest
      rw [List.reverse_cons, List.append_assoc found.reverse]
      apply hnext
      exact .token (k := .word letters) ⟨hletters, by simpa using hword⟩ hrest

lemma Explains.run {s : Scanner} (h : s.Explains p cs) (ds : List Char) :
    (∃ e, (s.run ds).pending = .stopped e) ∨ (s.run ds).Explains p (cs ++ ds) := by
  induction ds generalizing s cs with
  | nil => exact .inr (by simpa using h)
  | cons d ds ih =>
    rw [run_cons, List.append_cons]
    rcases h.step d with ⟨e, he⟩ | hd
    · left
      generalize s.step d = t at he ⊢
      obtain ⟨position, pending, found⟩ := t
      cases he
      exact ⟨e, by rw [run_stopped]⟩
    · exact ih hd

lemma Explains.finish {s : Scanner} (h : s.Explains p cs) {ts : List (Placed Token)}
    (hs : s.finish = .ok ts) : Laid p cs ts := by
  obtain ⟨position, pending, found⟩ := s
  obtain ⟨q, pre, hpending, -, hlaid⟩ := h
  cases hpending with
  | nothing =>
    cases hs
    simpa using hlaid [] [] .nil
  | dash => cases hs
  | @word _ letters hletters =>
    cases hs
    have hlast : Laid q (letters.toList ++ []) [⟨.word letters, q⟩] :=
      .token (k := .word letters) ⟨hletters, by simp⟩ .nil
    simpa using hlaid [] _ hlast

end Scanner

/-- The tokens of a text are the tokens that it is laid out as. -/
theorem tokens_eq_ok_iff {text : String} {ts : List (Placed Token)} :
    tokens text = .ok ts ↔ Laid .start text.toList ts := by
  constructor
  · intro h
    rcases Scanner.explains_initial.run text.toList with ⟨e, he⟩ | hexplains
    · simp [tokens, Scanner.finish, he] at h
    · exact hexplains.finish h
  · intro h
    exact h.finish_run []

end Remix.Recipe
