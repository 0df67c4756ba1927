import Remix.Proofs.Places

/-!
# Faults at the earliest token

Tokens are viable if further tokens can make a recipe of them. Whatever stage the reader has
reached, there are tokens that complete the clause, `Stage.completion`, unless it has stopped; and
then no token takes it any further. So the reader stops exactly at the first token with which the
tokens are no longer viable, and a fault that shows only at the end could have been avoided there.
-/

namespace Remix.Recipe

open Text (Placed Position)

/-- The reader accepts the tokens `ts`, wherever their text ends. -/
def Accepts (ts : List (Placed Token)) : Prop := ∀ p, (readTokens ts p).fault = none

/-- Further tokens make a recipe of the tokens `ts`. -/
def Viable (ts : List (Placed Token)) : Prop := ∃ us, Accepts (ts ++ us)

/-- Tokens that complete the clause at hand. -/
def Stage.completion : Stage → List Token
  | .source => [.word "x", .arrow, .word "x", .semicolon]
  | .firstArrow _ => [.arrow, .word "x", .semicolon]
  | .step _ => [.word "x", .semicolon]
  | .word _ w _ =>
    match Action.ofKeyword? w with
    | some _ => [.arrow, .word "x", .semicolon]
    | none => [.semicolon]
  | .saveName _ _ => [.word "x", .closeParen, .semicolon]
  | .saveClose _ _ _ => [.closeParen, .semicolon]
  | .terminator _ _ _ => [.semicolon]
  | .stopped _ => []

namespace Reader

variable {r : Reader} {ts : List (Placed Token)} {e : SyntaxError}

def Goes (r : Reader) : Prop := ∀ e, r.stage ≠ .stopped e

lemma goes_initial : initial.Goes := by
  intro e h
  cases h

lemma run_completion (h : r.Goes) :
    ∃ c, r.run (r.stage.completion.map (⟨·, .start⟩)) = ⟨c :: r.clauses, .source⟩ := by
  obtain ⟨clauses, stage⟩ := r
  cases stage with
  | stopped e => exact absurd rfl (h e)
  | word o w p =>
    cases ha : Action.ofKeyword? w with
    | some a =>
      obtain rfl := Action.ofKeyword?_eq_some_iff.mp ha
      simp only [Stage.completion, ha, List.map_cons, run_cons, step_word_arrow]
      exact ⟨_, rfl⟩
    | none =>
      have hw := Action.ofKeyword?_eq_none_iff.mp ha
      simp only [Stage.completion, ha, List.map_cons, run_cons, step_word_semicolon _ _ _ _ hw]
      exact ⟨_, rfl⟩
  | _ => exact ⟨_, rfl⟩

/-- A reader that stops does so at one token and had gone before. -/
lemma exists_stop (hr : r.Goes) (h : (r.run ts).stage = .stopped e) :
    ∃ k < ts.length, (r.run (ts.take k)).Goes ∧ (r.run (ts.take (k + 1))).stage = .stopped e := by
  induction ts generalizing r with
  | nil => exact absurd h (hr e)
  | cons t ts ih =>
    by_cases hstep : (r.step t).Goes
    · obtain ⟨k, hk, hgoes, hstop⟩ := ih hstep h
      exact ⟨k + 1, Nat.succ_lt_succ hk, hgoes, hstop⟩
    · obtain ⟨e', he'⟩ := not_forall_not.mp hstep
      rw [run_cons, run_of_stopped he'] at h
      exact ⟨0, Nat.succ_pos _, hr, h⟩

lemma faultAtEnd_of_goes (h : r.Goes) {p : Position} (he : r.faultAtEnd p = some e) :
    e.fault.IsAtEnd ∨ ∃ a, e.fault = .actionAsSink a := by
  rcases faultAtEnd_cases he with hstage | ⟨hend, -⟩ | ⟨o, w, q, a, -, rfl⟩
  · exact absurd hstage (h e)
  · exact .inl hend
  · exact .inr ⟨a, rfl⟩

end Reader

lemma fault_readTokens_of_stopped {ts : List (Placed Token)} {e : SyntaxError}
    (h : (Reader.initial.run ts).stage = .stopped e) (us : List (Placed Token)) (p : Position) :
    (readTokens (ts ++ us) p).fault = some e := by
  simp only [readTokens]
  rw [Reader.run_append, Reader.run_of_stopped h]
  simp [Reader.faultAtEnd, h]

/-- The reader stops as soon as no further tokens can make a recipe, and not before. -/
theorem viable_iff {ts : List (Placed Token)} :
    Viable ts ↔ (Reader.initial.run ts).Goes := by
  constructor
  · rintro ⟨us, haccepts⟩ e h
    have hfault := haccepts .start
    rw [fault_readTokens_of_stopped h] at hfault
    cases hfault
  · intro hgoes
    -- The places of further tokens do not matter for whether they are accepted.
    obtain ⟨c, hc⟩ := Reader.run_completion hgoes
    refine ⟨(Reader.initial.run ts).stage.completion.map (⟨·, .start⟩), fun p => ?_⟩
    simp only [readTokens]
    rw [Reader.run_append, hc]
    rfl

/-- A fault of a text that forms tokens is either one of the end of the text, where further tokens
could still make a recipe of it, or the fault of a first token with which nothing can: up to this
token some recipe begins in the same way, and with it all texts have the same fault. -/
theorem parse_fault_earliest (text : String) (ts : List (Placed Token)) (e : SyntaxError)
    (htokens : tokens text = .ok ts) (h : parse text = .error e) :
    (Viable ts ∧ (e.fault.IsAtEnd ∨ ∃ a, e.fault = .actionAsSink a)) ∨
    ∃ k < ts.length, Viable (ts.take k) ∧ ¬Viable (ts.take (k + 1)) ∧
      ∀ us p, (readTokens (ts.take (k + 1) ++ us) p).fault = some e := by
  have hfault := faultAtEnd_of_parse htokens h
  by_cases hgoes : (Reader.initial.run ts).Goes
  · exact .inl ⟨viable_iff.mpr hgoes, Reader.faultAtEnd_of_goes hgoes hfault⟩
  · obtain ⟨e', he'⟩ := not_forall_not.mp hgoes
    obtain rfl : e' = e := by
      rw [Reader.faultAtEnd, he'] at hfault
      exact Option.some.inj hfault
    obtain ⟨k, hk, hbefore, hstop⟩ := Reader.exists_stop Reader.goes_initial he'
    have hunviable : ¬Viable (ts.take (k + 1)) := fun hviable => viable_iff.mp hviable e' hstop
    exact .inr ⟨k, hk, viable_iff.mpr hbefore, hunviable, fault_readTokens_of_stopped hstop⟩

/-- The tokens of a statement with a word in front of an arrow that is no action. -/
def tmpMidChain : List (Placed Token) :=
  [⟨.word "vocals", ⟨0, 1, 1⟩⟩, ⟨.arrow, ⟨7, 1, 8⟩⟩, ⟨.word "tmp", ⟨10, 1, 11⟩⟩,
    ⟨.arrow, ⟨14, 1, 15⟩⟩, ⟨.word "flat", ⟨17, 1, 18⟩⟩]

theorem parse_fault_earliest_tmpMidChain :
    let e : SyntaxError := ⟨.sinkMidChain "tmp", ⟨10, 1, 11⟩⟩
    tokens "vocals -> tmp -> flat" = .ok tmpMidChain ∧ parse "vocals -> tmp -> flat" = .error e ∧
    ((Viable tmpMidChain ∧ (e.fault.IsAtEnd ∨ ∃ a, e.fault = .actionAsSink a)) ∨
      ∃ k < tmpMidChain.length, Viable (tmpMidChain.take k) ∧
        ¬Viable (tmpMidChain.take (k + 1)) ∧
        ∀ us p, (readTokens (tmpMidChain.take (k + 1) ++ us) p).fault = some e) := by
  have htokens : tokens "vocals -> tmp -> flat" = .ok tmpMidChain := by decide
  have h : parse "vocals -> tmp -> flat" = .error ⟨.sinkMidChain "tmp", ⟨10, 1, 11⟩⟩ := by decide
  exact ⟨htokens, h, parse_fault_earliest _ _ _ htokens h⟩

end Remix.Recipe
