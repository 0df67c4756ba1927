import Remix.Proofs.Grammar
import Remix.Proofs.Layout

/-!
# The canonical form of a recipe

Which recipes are read back from their text. The text of a recipe is laid out as the tokens of its
statements, `Lays`, and these are clauses of the grammar as long as every name can stand where it is
written. In the other direction, the names in a text that is read can all stand where they are.
-/

namespace Remix

open Recipe (IsWord Token dropWord)
open Text (Placed Position isBlank)

/-- The sources that a text can name. -/
def Source.Writable : Source → Prop
  | .stem _ => True
  | .sink name =>
    IsWord name ∧ (∀ s : Stem, name ≠ s.name) ∧ ∀ a : Action, name ≠ a.keyword

/-- The sinks that a text can name. Only a saved sink may have the name of an action. -/
def Sink.Writable (s : Sink) : Prop :=
  IsWord s.name ∧ s.name ≠ dropWord ∧ (s.saved ∨ ∀ a : Action, s.name ≠ a.keyword)

structure Statement.Writable (s : Statement) : Prop where
  source : s.source.Writable
  sink : s.sink.Writable

def Sink.tokens (s : Sink) : List Token :=
  if s.saved then [.saveOpen, .word s.name, .closeParen] else [.word s.name]

/-- The tokens of a statement. -/
def Statement.tokens (s : Statement) : List Token :=
  .word s.source.name :: .arrow :: (s.actions.flatMap fun a => [.word a.keyword, .arrow]) ++
    (s.sink.tokens ++ [.semicolon])

namespace Recipe

/-- Wherever the characters `cs` stand, they are laid out as tokens with the values `ks`. -/
def Lays (cs : List Char) (ks : List Token) : Prop :=
  ∀ p, ∃ ts, Laid p cs ts ∧ ts.map (·.value) = ks

variable {cs : List Char} {ks : List Token} {w : String}

lemma Lays.nil : Lays [] [] := fun _ => ⟨[], .nil, rfl⟩

lemma Lays.blank {c : Char} (hc : isBlank c) (h : Lays cs ks) : Lays (c :: cs) ks := by
  intro p
  obtain ⟨ts, hts, hks⟩ := h (p.advance c)
  exact ⟨ts, .blank hc hts, hks⟩

lemma Lays.token {k : Token} (hk : k.Fits cs) (h : Lays cs ks) :
    Lays (k.text.toList ++ cs) (k :: ks) := by
  intro p
  obtain ⟨ts, hts, hks⟩ := h (p.after k.text.toList)
  exact ⟨⟨k, p⟩ :: ts, .token hk hts, by simp [hks]⟩

lemma Lays.word {c : Char} (hw : IsWord w) (hc : ¬isWordChar c) (h : Lays (c :: cs) ks) :
    Lays (w.toList ++ c :: cs) (.word w :: ks) :=
  .token (k := .word w) ⟨hw, by simpa using hc⟩ h

lemma Lays.arrow (h : Lays cs ks) : Lays (" -> ".toList ++ cs) (.arrow :: ks) :=
  .blank (by decide) (.token (k := .arrow) trivial (.blank (by decide) h))

lemma isWord_keyword (a : Action) : IsWord a.keyword := by cases a <;> decide

lemma isWord_source {s : Source} (h : s.Writable) : IsWord s.name := by
  cases s with
  | stem s => cases s <;> decide
  | sink name => exact h.1

/-- The characters of the actions of a statement, up to the sink. -/
def chainText (actions : List Action) : List Char :=
  (actions.flatMap fun a => " -> ".toList ++ a.keyword.toList) ++ " -> ".toList

lemma chainText_cons (a : Action) (actions : List Action) :
    chainText (a :: actions) = " -> ".toList ++ (a.keyword.toList ++ chainText actions) := by
  simp [chainText]

lemma exists_chainText_eq (actions : List Action) : ∃ ds, chainText actions = ' ' :: ds := by
  cases actions with
  | nil => exact ⟨_, rfl⟩
  | cons a actions => exact ⟨_, rfl⟩

lemma lays_chain (h : Lays cs ks) (actions : List Action) :
    Lays (chainText actions ++ cs)
      (.arrow :: (actions.flatMap fun a => [.word a.keyword, .arrow]) ++ ks) := by
  induction actions with
  | nil => exact h.arrow
  | cons a actions ih =>
    obtain ⟨ds, hds⟩ := exists_chainText_eq actions
    rw [hds] at ih
    have hword := Lays.word (isWord_keyword a) (by decide) ih
    rw [chainText_cons, hds, List.append_assoc, List.append_assoc]
    exact hword.arrow

lemma lays_sink {s : Sink} (hs : s.Writable) (h : Lays (';' :: cs) ks) :
    Lays (s.text.toList ++ ';' :: cs) (s.tokens ++ ks) := by
  obtain ⟨hname, -, -⟩ := hs
  unfold Sink.text Sink.tokens
  split_ifs
  · have hclose : Lays (')' :: ';' :: cs) (.closeParen :: ks) :=
      .token (k := .closeParen) trivial h
    have hopen : Lays ("save(".toList ++ (s.name.toList ++ ')' :: ';' :: cs))
        (.saveOpen :: .word s.name :: .closeParen :: ks) :=
      .token (k := .saveOpen) trivial (hclose.word hname (by decide))
    simpa [toString] using hopen
  · exact h.word hname (by decide)

lemma toList_text (s : Statement) :
    s.text.toList =
      s.source.name.toList ++ (chainText s.actions ++ (s.sink.text.toList ++ [';'])) := by
  simp [Statement.text, chainText, String.toList_join, List.flatMap_map]

lemma lays_statementText {s : Statement} (hs : s.Writable) (h : Lays cs ks) :
    Lays (s.text.toList ++ cs) (s.tokens ++ ks) := by
  -- From the right to the left, since a word has to know the character behind it.
  have hend : Lays (';' :: cs) (.semicolon :: ks) := .token (k := .semicolon) trivial h
  have hchain := lays_chain (lays_sink hs.sink hend) s.actions
  obtain ⟨ds, hds⟩ := exists_chainText_eq s.actions
  rw [hds] at hchain
  have hwhole := Lays.word (isWord_source hs.source) (by decide) hchain
  convert hwhole using 1
  · simp [toList_text, hds]
  · simp [Statement.tokens]

lemma lays_statement {s : Statement} (hs : s.Writable) (h : Lays cs ks) :
    Lays ((s.text ++ "\n").toList ++ cs) (s.tokens ++ ks) := by
  have hline : Lays (s.text.toList ++ '\n' :: cs) (s.tokens ++ ks) :=
    lays_statementText hs (.blank (by decide) h)
  rw [String.toList_append, List.append_assoc]
  exact hline

lemma lays_text {r : Recipe} (hr : ∀ s ∈ r.statements, s.Writable) :
    Lays r.text.toList (r.statements.flatMap Statement.tokens) := by
  obtain ⟨statements⟩ := r
  unfold Recipe.text
  induction statements with
  | nil => exact .nil
  | cons s statements ih =>
    obtain ⟨hs, hr⟩ := List.forall_mem_cons.mp hr
    rw [List.map_cons, String.join_cons, String.toList_append, List.flatMap_cons]
    exact lays_statement hs (ih hr)

lemma exists_placed {k : Token} {ts : List (Placed Token)} (h : ts.map (·.value) = k :: ks) :
    ∃ p us, ts = ⟨k, p⟩ :: us ∧ us.map (·.value) = ks := by
  obtain ⟨⟨_, p⟩, us, hts, rfl, hus⟩ := List.map_eq_cons_iff.mp h
  exact ⟨p, us, hts, hus⟩

lemma chain_of_tokens {actions : List Action} {ts : List (Placed Token)}
    (h : ts.map (·.value) = actions.flatMap fun a => [.word a.keyword, .arrow]) :
    Chain ts actions := by
  induction actions generalizing ts with
  | nil =>
    rw [List.map_eq_nil_iff.mp h]
    exact .nil
  | cons a actions ih =>
    obtain ⟨p, ts₁, rfl, h₁⟩ := exists_placed h
    obtain ⟨q, ts₂, rfl, h₂⟩ := exists_placed h₁
    exact .cons (ih h₂)

lemma ending_of_tokens {s : Sink} (hs : s.Writable) {ts : List (Placed Token)}
    (h : ts.map (·.value) = s.tokens) : Ending ts (some s) := by
  obtain ⟨name, saved⟩ := s
  obtain ⟨-, hdrop, haction⟩ := hs
  cases saved with
  | true =>
    obtain ⟨p, ts₁, rfl, h₁⟩ := exists_placed h
    obtain ⟨q, ts₂, rfl, h₂⟩ := exists_placed h₁
    obtain ⟨r, ts₃, rfl, h₃⟩ := exists_placed h₂
    rw [List.map_eq_nil_iff.mp h₃]
    exact .save hdrop
  | false =>
    obtain ⟨p, ts₁, rfl, h₁⟩ := exists_placed h
    rw [List.map_eq_nil_iff.mp h₁]
    exact .bare (haction.resolve_left Bool.false_ne_true) hdrop

lemma sourceWord_name {s : Source} (h : s.Writable) : SourceWord s.name s := by
  cases s with
  | stem s => exact .stem s
  | sink name => exact .sink h.2.1

lemma name_ne_keyword {s : Source} (h : s.Writable) (a : Action) : s.name ≠ a.keyword := by
  cases s with
  | stem s => cases s <;> cases a <;> decide
  | sink name => exact h.2.2 a

lemma isClause_of_tokens {s : Statement} (hs : s.Writable) {ts : List (Placed Token)}
    (h : ts.map (·.value) = s.tokens) : ∃ p, IsClause ts (.kept ⟨s, p⟩) := by
  obtain ⟨p, ts₁, rfl, h₁⟩ := exists_placed h
  obtain ⟨q, ts₂, rfl, h₂⟩ := exists_placed h₁
  obtain ⟨chain, rest, rfl, hchain, hrest⟩ := List.map_eq_append_iff.mp h₂
  obtain ⟨ending, last, rfl, hending, hlast⟩ := List.map_eq_append_iff.mp hrest
  obtain ⟨r, us, rfl, hus⟩ := exists_placed hlast
  rw [List.map_eq_nil_iff.mp hus]
  have hclause := IsClause.intro (p := p) (q := q) (r := r) (name_ne_keyword hs.source)
    (sourceWord_name hs.source) (chain_of_tokens hchain) (ending_of_tokens hs.sink hending)
  exact ⟨p, by simpa [Clause.ofSink?] using hclause⟩

lemma clauses_of_tokens {statements : List Statement} (hs : ∀ s ∈ statements, s.Writable)
    {ts : List (Placed Token)} (h : ts.map (·.value) = statements.flatMap Statement.tokens) :
    ∃ (parts : List (List (Placed Token))) (placed : List (Placed Statement)),
      ts = parts.flatten ∧ List.Forall₂ IsClause parts (placed.map Clause.kept) ∧
        placed.map (·.value) = statements := by
  induction statements generalizing ts with
  | nil => exact ⟨[], [], List.map_eq_nil_iff.mp h, .nil, rfl⟩
  | cons s statements ih =>
    obtain ⟨hhead, htail⟩ := List.forall_mem_cons.mp hs
    rw [List.flatMap_cons] at h
    obtain ⟨part, rest, rfl, hpart, hrest⟩ := List.map_eq_append_iff.mp h
    obtain ⟨p, hclause⟩ := isClause_of_tokens hhead hpart
    obtain ⟨parts, placed, rfl, hparts, hplaced⟩ := ih htail hrest
    exact ⟨part :: parts, ⟨s, p⟩ :: placed, rfl, .cons hclause hparts, by simp [hplaced]⟩

lemma ofText_eq_ok_iff {text : String} {r : Recipe} :
    ofText text = .ok r ↔
      ∃ clauses, read text = ⟨clauses, none⟩ ∧
        r.statements = (clauses.filterMap Clause.statement?).map (·.value) := by
  obtain ⟨statements⟩ := r
  unfold ofText
  constructor
  · intro h
    cases hparse : parse text with
    | error e => simp [hparse, Except.map] at h
    | ok placed =>
      obtain ⟨clauses, hread, hplaced⟩ := parse_eq_ok_iff_read.mp hparse
      rw [hparse] at h
      cases h
      exact ⟨clauses, hread, by rw [hplaced]⟩
  · rintro ⟨clauses, hread, hstatements⟩
    rw [parse_eq_ok_iff_read.mpr ⟨clauses, hread, rfl⟩]
    simp only at hstatements
    rw [hstatements]
    rfl

/-- A recipe that can be written is read back from its text. -/
lemma ofText_text {r : Recipe} (hne : r.statements ≠ []) (hr : ∀ s ∈ r.statements, s.Writable) :
    ofText r.text = .ok r := by
  obtain ⟨ts, hlaid, hts⟩ := lays_text hr .start
  have htokens := tokens_eq_ok_iff.mpr hlaid
  obtain ⟨parts, placed, hflatten, hparts, hplaced⟩ := clauses_of_tokens hr hts
  have hparts_ne : parts ≠ [] := by
    rintro rfl
    cases placed with
    | nil => exact hne hplaced.symm
    | cons => cases hparts
  have hread := read_eq_iff.mpr ⟨ts, htokens, parts, hparts_ne, hflatten, hparts⟩
  refine ofText_eq_ok_iff.mpr ⟨_, hread, ?_⟩
  have hkept : (placed.map Clause.kept).filterMap Clause.statement? = placed := by
    rw [List.filterMap_map]
    exact List.filterMap_some
  rw [hkept, hplaced]

lemma Laid.isWord {p : Position} {ts : List (Placed Token)} (h : Laid p cs ts) {q : Position}
    (hw : ⟨.word w, q⟩ ∈ ts) : IsWord w := by
  induction h with
  | nil => cases hw
  | blank _ _ ih => exact ih hw
  | @token p k cs ts hk _ ih =>
    rcases List.mem_cons.mp hw with heq | hw
    · cases heq
      exact hk.1
    · exact ih hw

lemma SourceWord.writable {source : Source} (h : SourceWord w source) (hw : IsWord w)
    (haction : ∀ a : Action, w ≠ a.keyword) : source.Writable := by
  cases h with
  | stem s => exact trivial
  | sink hstem => exact ⟨hw, hstem, haction⟩

lemma Ending.writable {ts : List (Placed Token)} {s : Sink} (h : Ending ts (some s))
    (hwords : ∀ w q, ⟨.word w, q⟩ ∈ ts → IsWord w) : s.Writable := by
  cases h with
  | @bare w p haction hdrop => exact ⟨hwords w p (by simp), hdrop, .inr haction⟩
  | @save w p q r hdrop => exact ⟨hwords w q (by simp), hdrop, .inl rfl⟩

lemma IsClause.writable {ts : List (Placed Token)} {s : Placed Statement}
    (h : IsClause ts (.kept s)) (hwords : ∀ w q, ⟨.word w, q⟩ ∈ ts → IsWord w) :
    s.value.Writable := by
  generalize hc : Clause.kept s = c at h
  obtain @⟨w, source, p, q, r, chain, ending, actions, sink?, hw, hsource, -, hending⟩ := h
  cases sink? with
  | none => cases hc
  | some sink =>
    cases hc
    have hending_words : ∀ v q, ⟨.word v, q⟩ ∈ ending → IsWord v := by
      intro v q hv
      exact hwords v q (by simp [hv])
    exact ⟨hsource.writable (hwords w p (by simp)) hw, hending.writable hending_words⟩

lemma exists_part {parts : List (List (Placed Token))} {clauses : List Clause}
    (h : List.Forall₂ IsClause parts clauses) {c : Clause} (hc : c ∈ clauses) :
    ∃ part ∈ parts, IsClause part c := by
  induction h with
  | nil => cases hc
  | cons hclause _ ih =>
    rcases List.mem_cons.mp hc with rfl | hc
    · exact ⟨_, List.mem_cons_self, hclause⟩
    · obtain ⟨part, hpart, hclause⟩ := ih hc
      exact ⟨part, List.mem_cons_of_mem _ hpart, hclause⟩

/-- Whatever is read of a text can be written. -/
lemma writable_of_ofText {text : String} {r : Recipe} (h : ofText text = .ok r) :
    ∀ s ∈ r.statements, s.Writable := by
  obtain ⟨clauses, hread, hstatements⟩ := ofText_eq_ok_iff.mp h
  obtain ⟨ts, htokens, parts, -, rfl, hparts⟩ := read_eq_iff.mp hread
  have hlaid := tokens_eq_ok_iff.mp htokens
  intro s hs
  rw [hstatements, List.mem_map] at hs
  obtain ⟨placed, hplaced, rfl⟩ := hs
  obtain ⟨c, hc, hkept⟩ := List.mem_filterMap.mp hplaced
  cases c with
  | dropped => cases hkept
  | kept t =>
    cases hkept
    obtain ⟨part, hpart, hclause⟩ := exists_part hparts hc
    refine hclause.writable fun w q hw => ?_
    exact hlaid.isWord (List.mem_flatten.mpr ⟨part, hpart, hw⟩)

lemma statements_eq_nil_iff {text : String} {r : Recipe} (h : ofText text = .ok r) :
    r.statements = [] ↔ ∀ c ∈ (read text).clauses, c = .dropped := by
  obtain ⟨clauses, hread, hstatements⟩ := ofText_eq_ok_iff.mp h
  rw [hread, hstatements, List.map_eq_nil_iff, List.filterMap_eq_nil_iff]
  refine forall₂_congr fun c _ => ?_
  cases c <;> simp [Clause.statement?]

lemma clauses_ne_nil {text : String} {r : Recipe} (h : ofText text = .ok r) :
    (read text).clauses ≠ [] := by
  obtain ⟨clauses, hread, -⟩ := ofText_eq_ok_iff.mp h
  obtain ⟨ts, -, parts, hne, -, hparts⟩ := read_eq_iff.mp hread
  rw [hread]
  rintro rfl
  cases hparts
  exact hne rfl

/-- A recipe is read back from its text exactly when it has a statement and every statement can be
written. Every text that is read gives such a recipe, unless all its statements end in `drop`. -/
theorem text_faithful :
    (∀ r : Recipe, ofText r.text = .ok r ↔
      r.statements ≠ [] ∧ ∀ s ∈ r.statements, s.Writable) ∧
    (∀ (text : String) (r : Recipe), ofText text = .ok r →
      (∀ s ∈ r.statements, s.Writable) ∧ (read text).clauses ≠ [] ∧
        (r.statements = [] ↔ ∀ c ∈ (read text).clauses, c = .dropped)) ∧
    ∃ text, ofText text = .ok ⟨[]⟩ := by
  refine ⟨fun r => ⟨fun h => ⟨?_, writable_of_ofText h⟩, ?_⟩, fun text r h => ?_, ?_⟩
  · -- The text of the recipe without statements is empty, and no empty text is read.
    intro hnil
    rw [Recipe.text, hnil] at h
    cases h
  · rintro ⟨hne, hr⟩
    exact ofText_text hne hr
  · exact ⟨writable_of_ofText h, clauses_ne_nil h, statements_eq_nil_iff h⟩
  · exact ⟨"bass -> drop;", by decide⟩

end Recipe

end Remix
