import Mathlib.Data.List.Forall2
import Mathlib.Tactic.Common
import Remix.Recipe.Parser

/-!
# The grammar of recipes

What a text of tokens has to look like to be a recipe, said without the reader: a sequence of
clauses, each a source, actions and an ending with arrows between them and a semicolon behind. The
reader accepts exactly these sequences. `Stage.Reads` is its invariant: it says which tokens of the
clause at hand each stage stands for.
-/

namespace Remix.Recipe

open Text (Placed Position)

/-- The source that a word means. -/
inductive SourceWord : String → Source → Prop where
  | stem (s : Stem) : SourceWord s.name (.stem s)
  | sink {w : String} (h : ∀ s : Stem, w ≠ s.name) : SourceWord w (.sink w)

/-- Actions, each followed by an arrow. -/
inductive Chain : List (Placed Token) → List Action → Prop where
  | nil : Chain [] []
  | cons {a : Action} {p q : Position} {ts : List (Placed Token)} {actions : List Action}
      (h : Chain ts actions) :
      Chain (⟨.word a.keyword, p⟩ :: ⟨.arrow, q⟩ :: ts) (a :: actions)

/-- The sink of a statement, or the drop word, which leaves none. -/
inductive Ending : List (Placed Token) → Option Sink → Prop where
  | bare {w : String} {p : Position} (haction : ∀ a : Action, w ≠ a.keyword)
      (hdrop : w ≠ dropWord) : Ending [⟨.word w, p⟩] (some ⟨w, false⟩)
  | drop {p : Position} : Ending [⟨.word dropWord, p⟩] none
  | save {w : String} {p q s : Position} (hdrop : w ≠ dropWord) :
      Ending [⟨.saveOpen, p⟩, ⟨.word w, q⟩, ⟨.closeParen, s⟩] (some ⟨w, true⟩)

/-- What is left of a statement that ends in a sink or in none. -/
def Clause.ofSink? (source : Source) (p : Position) (actions : List Action) :
    Option Sink → Clause
  | some sink => .kept ⟨⟨source, actions, sink⟩, p⟩
  | none => .dropped

/-- The tokens of one statement, with what is left of it. -/
inductive IsClause : List (Placed Token) → Clause → Prop where
  | intro {w : String} {source : Source} {p q r : Position} {chain ending : List (Placed Token)}
      {actions : List Action} {sink? : Option Sink} (hw : ∀ a : Action, w ≠ a.keyword)
      (hsource : SourceWord w source) (hchain : Chain chain actions)
      (hending : Ending ending sink?) :
      IsClause (⟨.word w, p⟩ :: ⟨.arrow, q⟩ :: chain ++ ending ++ [⟨.semicolon, r⟩])
        (.ofSink? source p actions sink?)

lemma sourceWord_sourceNamed (w : String) : SourceWord w (sourceNamed w) := by
  unfold sourceNamed
  split
  · rename_i s hs
    rw [Stem.ofName?_eq_some_iff.mp hs]
    exact .stem s
  · rename_i hs
    exact .sink (Stem.ofName?_eq_none_iff.mp hs)

lemma SourceWord.eq_sourceNamed {w : String} {source : Source} (h : SourceWord w source) :
    source = sourceNamed w := by
  cases h with
  | stem s => rw [sourceNamed, Stem.ofName?_name]
  | sink h => rw [sourceNamed, Stem.ofName?_eq_none_iff.mpr h]

lemma Chain.concat {ts : List (Placed Token)} {actions : List Action} (h : Chain ts actions)
    (a : Action) (p q : Position) :
    Chain (ts ++ [⟨.word a.keyword, p⟩, ⟨.arrow, q⟩]) (actions ++ [a]) := by
  induction h with
  | nil => exact .cons .nil
  | cons _ ih => exact .cons ih

/-- The tokens of a statement up to an arrow. -/
inductive Opening.Reads : Opening → List (Placed Token) → Prop where
  | intro {w : String} {source : Source} {p q : Position} {chain : List (Placed Token)}
      {actions : List Action} (hw : ∀ a : Action, w ≠ a.keyword) (hsource : SourceWord w source)
      (hchain : Chain chain actions.reverse) :
      Opening.Reads ⟨source, p, actions⟩ (⟨.word w, p⟩ :: ⟨.arrow, q⟩ :: chain)

/-- The tokens of the clause at hand that bring the reader to a stage. -/
inductive Stage.Reads : Stage → List (Placed Token) → Prop where
  | source : Stage.Reads .source []
  | firstArrow {w : String} {source : Source} {p : Position} (hw : ∀ a : Action, w ≠ a.keyword)
      (hsource : SourceWord w source) :
      Stage.Reads (.firstArrow ⟨source, p, []⟩) [⟨.word w, p⟩]
  | step {o : Opening} {ts : List (Placed Token)} (h : o.Reads ts) : Stage.Reads (.step o) ts
  | word {o : Opening} {ts : List (Placed Token)} {w : String} {p : Position} (h : o.Reads ts) :
      Stage.Reads (.word o w p) (ts ++ [⟨.word w, p⟩])
  | saveName {o : Opening} {ts : List (Placed Token)} {p : Position} (h : o.Reads ts) :
      Stage.Reads (.saveName o p) (ts ++ [⟨.saveOpen, p⟩])
  | saveClose {o : Opening} {ts : List (Placed Token)} {w : String} {p q : Position}
      (h : o.Reads ts) (hdrop : w ≠ dropWord) :
      Stage.Reads (.saveClose o w p) (ts ++ [⟨.saveOpen, p⟩, ⟨.word w, q⟩])
  | terminator {o : Opening} {ts : List (Placed Token)} {w : String} {p q s : Position}
      (h : o.Reads ts) (hdrop : w ≠ dropWord) :
      Stage.Reads (.terminator o ⟨w, true⟩ p)
        (ts ++ [⟨.saveOpen, p⟩, ⟨.word w, q⟩, ⟨.closeParen, s⟩])

lemma Opening.Reads.push {o : Opening} {ts : List (Placed Token)} (h : o.Reads ts) (a : Action)
    (p q : Position) :
    Opening.Reads { o with actions := a :: o.actions }
      (ts ++ [⟨.word a.keyword, p⟩] ++ [⟨.arrow, q⟩]) := by
  obtain ⟨hw, hsource, hchain⟩ := h
  have hpush := hchain.concat a p q
  rw [← List.reverse_cons] at hpush
  simpa using Opening.Reads.intro (p := _) (q := _) hw hsource hpush

lemma Opening.Reads.close {o : Opening} {ts ending : List (Placed Token)} {sink? : Option Sink}
    (h : o.Reads ts) (he : Ending ending sink?) (r : Position) :
    IsClause (ts ++ ending ++ [⟨.semicolon, r⟩])
      (.ofSink? o.source o.position o.actions.reverse sink?) := by
  obtain ⟨hw, hsource, hchain⟩ := h
  exact .intro hw hsource hchain he

namespace Reader

variable (clauses : List Clause) (o : Opening) {w : String} (p q : Position)

lemma step_source_word (hw : ∀ a : Action, w ≠ a.keyword) :
    step ⟨clauses, .source⟩ ⟨.word w, p⟩ =
      ⟨clauses, .firstArrow ⟨sourceNamed w, p, []⟩⟩ := by
  simp [step, Action.ofKeyword?_eq_none_iff.mpr hw, goto]

lemma step_word_arrow (a : Action) :
    step ⟨clauses, .word o a.keyword q⟩ ⟨.arrow, p⟩ =
      ⟨clauses, .step { o with actions := a :: o.actions }⟩ := by
  simp [step, goto]

lemma step_word_semicolon (hw : ∀ a : Action, w ≠ a.keyword) :
    step ⟨clauses, .word o w q⟩ ⟨.semicolon, p⟩ = ⟨o.closeWith w :: clauses, .source⟩ := by
  simp [step, Action.ofKeyword?_eq_none_iff.mpr hw, complete]

lemma step_saveName_word (hdrop : w ≠ dropWord) :
    step ⟨clauses, .saveName o q⟩ ⟨.word w, p⟩ = ⟨clauses, .saveClose o w q⟩ := by
  simp [step, hdrop, goto]

/-- What one token makes of a reader that stands behind the tokens `last` of a clause. -/
def Moves (clauses : List Clause) (last : List (Placed Token)) (r : Reader) : Prop :=
  (∃ e, r.stage = .stopped e) ∨ (r.clauses = clauses ∧ r.stage.Reads last) ∨
    ∃ c, r = ⟨c :: clauses, .source⟩ ∧ IsClause last c

variable {clauses o} {last : List (Placed Token)}

lemma moves_stop (r : Reader) (fault : SyntaxFault) (p : Position) :
    Moves clauses last (r.stop fault p) := .inl ⟨_, rfl⟩

lemma moves_source (t : Placed Token) : Moves clauses [t] (step ⟨clauses, .source⟩ t) := by
  obtain ⟨kind, p⟩ := t
  cases kind with
  | word w =>
    cases ha : Action.ofKeyword? w with
    | some a =>
      simp only [step, ha]
      exact moves_stop _ _ _
    | none =>
      have hw := Action.ofKeyword?_eq_none_iff.mp ha
      rw [step_source_word clauses p hw]
      exact .inr (.inl ⟨rfl, .firstArrow hw (sourceWord_sourceNamed w)⟩)
  | _ => exact moves_stop _ _ _

lemma moves_word {q : Position} (ho : o.Reads last) (t : Placed Token) :
    Moves clauses (last ++ [⟨.word w, q⟩] ++ [t]) (step ⟨clauses, .word o w q⟩ t) := by
  obtain ⟨kind, p⟩ := t
  cases ha : Action.ofKeyword? w with
  | some a =>
    cases kind with
    | arrow =>
      have hw := Action.ofKeyword?_eq_some_iff.mp ha
      subst hw
      rw [step_word_arrow]
      exact .inr (.inl ⟨rfl, .step (ho.push a q p)⟩)
    | _ =>
      simp only [step, ha]
      exact moves_stop _ _ _
  | none =>
    have hw := Action.ofKeyword?_eq_none_iff.mp ha
    cases kind with
    | semicolon =>
      rw [step_word_semicolon clauses o p q hw]
      refine .inr (.inr ⟨_, rfl, ?_⟩)
      unfold Opening.closeWith
      by_cases hdrop : w = dropWord
      · rw [if_pos hdrop, hdrop]
        exact ho.close .drop p
      · rw [if_neg hdrop]
        exact ho.close (.bare hw hdrop) p
    | _ =>
      simp only [step, ha]
      exact moves_stop _ _ _

lemma moves_saveName {q : Position} (ho : o.Reads last) (t : Placed Token) :
    Moves clauses (last ++ [⟨.saveOpen, q⟩] ++ [t]) (step ⟨clauses, .saveName o q⟩ t) := by
  obtain ⟨kind, p⟩ := t
  cases kind with
  | word w =>
    by_cases hdrop : w = dropWord
    · simp only [step, hdrop, if_true]
      exact moves_stop _ _ _
    · rw [step_saveName_word clauses o p q hdrop, List.append_assoc]
      exact .inr (.inl ⟨rfl, .saveClose ho hdrop⟩)
  | _ => exact moves_stop _ _ _

/-- One token stops the reader, takes it to the next stage of a clause or completes the clause. -/
lemma moves_step {r : Reader} (h : r.stage.Reads last) (t : Placed Token) :
    Moves r.clauses (last ++ [t]) (r.step t) := by
  obtain ⟨clauses, stage⟩ := r
  cases h with
  | source => exact moves_source t
  | word ho => exact moves_word ho t
  | saveName ho => exact moves_saveName ho t
  | firstArrow hw hsource =>
    obtain ⟨kind, p⟩ := t
    cases kind with
    | arrow => exact .inr (.inl ⟨rfl, .step (.intro hw hsource .nil)⟩)
    | _ => exact moves_stop _ _ _
  | step ho =>
    obtain ⟨kind, p⟩ := t
    cases kind with
    | word w => exact .inr (.inl ⟨rfl, .word ho⟩)
    | saveOpen => exact .inr (.inl ⟨rfl, .saveName ho⟩)
    | _ => exact moves_stop _ _ _
  | saveClose ho hdrop =>
    obtain ⟨kind, p⟩ := t
    rw [List.append_assoc]
    cases kind with
    | closeParen => exact .inr (.inl ⟨rfl, .terminator ho hdrop⟩)
    | _ => exact moves_stop _ _ _
  | terminator ho hdrop =>
    obtain ⟨kind, p⟩ := t
    cases kind with
    | semicolon => exact .inr (.inr ⟨_, rfl, ho.close (.save hdrop) p⟩)
    | _ => exact moves_stop _ _ _

lemma step_of_stopped {r : Reader} {e : SyntaxError} (h : r.stage = .stopped e)
    (t : Placed Token) : r.step t = r := by
  simp [step, h]

lemma run_of_stopped {r : Reader} {e : SyntaxError} (h : r.stage = .stopped e)
    (ts : List (Placed Token)) : r.run ts = r := by
  induction ts with
  | nil => rfl
  | cons t ts ih => rw [run_cons, step_of_stopped h, ih]

/-- The tokens read so far: whole clauses, and the beginning of the clause at hand. -/
def Explains (r : Reader) (ts : List (Placed Token)) : Prop :=
  ∃ parts last, ts = parts.flatten ++ last ∧ List.Forall₂ IsClause parts r.clauses.reverse ∧
    r.stage.Reads last

lemma explains_initial : initial.Explains [] := ⟨[], [], rfl, .nil, .source⟩

lemma Explains.run {r : Reader} {ts : List (Placed Token)} (h : r.Explains ts)
    (us : List (Placed Token)) :
    (∃ e, (r.run us).stage = .stopped e) ∨ (r.run us).Explains (ts ++ us) := by
  induction us generalizing r ts with
  | nil => exact .inr (by simpa using h)
  | cons u us ih =>
    obtain ⟨parts, last, hts, hparts, hlast⟩ := h
    rw [run_cons, List.append_cons]
    -- The token stops the reader, goes on with the clause at hand or is the last one of it.
    rcases moves_step hlast u with ⟨e, he⟩ | ⟨hclauses, hreads⟩ | ⟨c, hstep, hc⟩
    · exact .inl ⟨e, by rw [run_of_stopped he, he]⟩
    · refine ih ⟨parts, last ++ [u], ?_, by rwa [hclauses], hreads⟩
      rw [hts, List.append_assoc]
    · refine ih ⟨parts ++ [last ++ [u]], [], ?_, ?_, ?_⟩
      · simp [hts]
      · rw [hstep, List.reverse_cons]
        exact List.rel_append hparts (.cons hc .nil)
      · rw [hstep]
        exact .source

lemma run_chain {ts : List (Placed Token)} {actions : List Action} (h : Chain ts actions)
    (clauses : List Clause) (o : Opening) :
    run ⟨clauses, .step o⟩ ts =
      ⟨clauses, .step { o with actions := actions.reverse ++ o.actions }⟩ := by
  induction h generalizing o with
  | nil => rfl
  | @cons a p q ts actions _ ih =>
    have hword : step ⟨clauses, .step o⟩ ⟨.word a.keyword, p⟩ =
        ⟨clauses, .word o a.keyword p⟩ := rfl
    rw [run_cons, run_cons, hword, step_word_arrow, ih]
    simp

lemma run_ending {ts : List (Placed Token)} {sink? : Option Sink} (h : Ending ts sink?)
    (clauses : List Clause) (o : Opening) (r : Position) :
    run ⟨clauses, .step o⟩ (ts ++ [⟨.semicolon, r⟩]) =
      ⟨.ofSink? o.source o.position o.actions.reverse sink? :: clauses, .source⟩ := by
  cases h with
  | @bare w p haction hdrop =>
    change step ⟨clauses, .word o w p⟩ ⟨.semicolon, r⟩ = _
    rw [step_word_semicolon clauses o r p haction, Opening.closeWith, if_neg hdrop]
    rfl
  | @drop p =>
    change step ⟨clauses, .word o dropWord p⟩ ⟨.semicolon, r⟩ = _
    have haction : ∀ a : Action, dropWord ≠ a.keyword := by
      intro a
      cases a <;> decide
    rw [step_word_semicolon clauses o r p haction, Opening.closeWith, if_pos rfl]
    rfl
  | @save w p q s hdrop =>
    change run (step ⟨clauses, .saveName o p⟩ ⟨.word w, q⟩) [⟨.closeParen, s⟩, ⟨.semicolon, r⟩] = _
    rw [step_saveName_word clauses o q p hdrop]
    rfl

lemma run_clause {ts : List (Placed Token)} {c : Clause} (h : IsClause ts c)
    (clauses : List Clause) : run ⟨clauses, .source⟩ ts = ⟨c :: clauses, .source⟩ := by
  cases h with
  | @intro w source p q r chain ending actions sink? hw hsource hchain hending =>
    have harrow : step ⟨clauses, .firstArrow ⟨sourceNamed w, p, []⟩⟩ ⟨.arrow, q⟩ =
        ⟨clauses, .step ⟨sourceNamed w, p, []⟩⟩ := rfl
    rw [List.cons_append, List.cons_append, List.cons_append, List.cons_append, List.append_assoc,
      run_cons, run_cons, step_source_word clauses p hw, harrow, run_append, run_chain hchain,
      run_ending hending, hsource.eq_sourceNamed]
    simp

lemma run_clauses {parts : List (List (Placed Token))} {read : List Clause}
    (h : List.Forall₂ IsClause parts read) (clauses : List Clause) :
    run ⟨clauses, .source⟩ parts.flatten = ⟨read.reverse ++ clauses, .source⟩ := by
  induction h generalizing clauses with
  | nil => rfl
  | @cons part c parts read hc _ ih =>
    rw [List.flatten_cons, run_append, run_clause hc, ih]
    simp

lemma faultAtEnd_eq_none_iff {r : Reader} {p : Position} :
    r.faultAtEnd p = none ↔ r.stage = .source ∧ r.clauses ≠ [] := by
  obtain ⟨clauses, stage⟩ := r
  cases stage with
  | source => cases clauses <;> simp [faultAtEnd]
  | word o w q => cases ha : Action.ofKeyword? w <;> simp [faultAtEnd, ha]
  | _ => simp [faultAtEnd]

end Reader

lemma readTokens_eq_iff {ts : List (Placed Token)} {p : Position} {clauses : List Clause} :
    readTokens ts p = ⟨clauses, none⟩ ↔
      ∃ parts, parts ≠ [] ∧ ts = parts.flatten ∧ List.Forall₂ IsClause parts clauses := by
  constructor
  · intro h
    obtain ⟨hclauses, hfault⟩ := Reading.mk.inj h
    obtain ⟨hstage, hne⟩ := Reader.faultAtEnd_eq_none_iff.mp hfault
    rcases Reader.explains_initial.run ts with ⟨e, he⟩ | ⟨parts, last, hts, hparts, hlast⟩
    · rw [hstage] at he
      cases he
    · rw [hstage] at hlast
      cases hlast
      rw [hclauses] at hparts
      refine ⟨parts, ?_, by simpa using hts, hparts⟩
      rintro rfl
      cases hparts
      exact hne (List.reverse_eq_nil_iff.mp hclauses)
  · rintro ⟨parts, hne, rfl, hparts⟩
    have hrun := Reader.run_clauses hparts []
    have hclauses : clauses ≠ [] := by
      rintro rfl
      cases hparts
      exact hne rfl
    unfold readTokens Reader.initial
    rw [hrun]
    simp [Reader.faultAtEnd, hclauses]

lemma read_eq_iff {text : String} {clauses : List Clause} :
    read text = ⟨clauses, none⟩ ↔
      ∃ ts, tokens text = .ok ts ∧ ∃ parts, parts ≠ [] ∧ ts = parts.flatten ∧
        List.Forall₂ IsClause parts clauses := by
  unfold read
  cases htokens : tokens text with
  | error e => simp
  | ok ts =>
    simp only [readTokens_eq_iff, Except.ok.injEq]
    exact ⟨fun h => ⟨ts, rfl, h⟩, fun ⟨_, hts, h⟩ => hts ▸ h⟩

lemma parse_eq_ok_iff_read {text : String} {statements : List (Placed Statement)} :
    parse text = .ok statements ↔
      ∃ clauses, read text = ⟨clauses, none⟩ ∧
        statements = clauses.filterMap Clause.statement? := by
  unfold parse Reading.statements
  obtain ⟨clauses, fault⟩ := read text
  cases fault with
  | some e => simp
  | none => simp [eq_comm]

/-- Reading accepts exactly the recipes of the grammar, and gives their statements in order without
those that end in `drop`. -/
theorem parse_eq_ok_iff (text : String) (statements : List (Placed Statement)) :
    parse text = .ok statements ↔
      ∃ ts, tokens text = .ok ts ∧ ∃ parts clauses, parts ≠ [] ∧ ts = parts.flatten ∧
        List.Forall₂ IsClause parts clauses ∧
        statements = clauses.filterMap Clause.statement? := by
  rw [parse_eq_ok_iff_read]
  constructor
  · rintro ⟨clauses, hread, hstatements⟩
    obtain ⟨ts, htokens, parts, hne, hts, hparts⟩ := read_eq_iff.mp hread
    exact ⟨ts, htokens, parts, clauses, hne, hts, hparts, hstatements⟩
  · rintro ⟨ts, htokens, parts, clauses, hne, hts, hparts, hstatements⟩
    exact ⟨clauses, read_eq_iff.mpr ⟨ts, htokens, parts, hne, hts, hparts⟩, hstatements⟩

end Remix.Recipe
