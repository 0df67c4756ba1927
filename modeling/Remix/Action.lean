/-!
# Actions

The closed vocabulary of changes that a recipe can apply to a track.
-/

namespace Remix

/-- A change that a recipe can apply to a track. -/
inductive Action where
  | early
  | late
  | flat
  | sharp
  | halfFlat
  | halfSharp
  | octaveUp
  | octaveDown
  deriving DecidableEq, Repr

namespace Action

/-- Every action, in the order in which actions are listed. -/
def all : List Action :=
  [early, late, flat, sharp, halfFlat, halfSharp, octaveUp, octaveDown]

theorem mem_all (a : Action) : a ∈ all := by cases a <;> decide

/-- The word that stands for an action in a recipe. -/
def keyword : Action → String
  | early => "early"
  | late => "late"
  | flat => "flat"
  | sharp => "sharp"
  | halfFlat => "halfflat"
  | halfSharp => "halfsharp"
  | octaveUp => "octaveup"
  | octaveDown => "octavedown"

/-- The action with a given keyword; keywords are compared exactly. -/
def ofKeyword? (word : String) : Option Action := all.find? (·.keyword = word)

@[simp] theorem ofKeyword?_keyword (a : Action) : ofKeyword? a.keyword = some a := by
  cases a <;> decide

theorem ofKeyword?_eq_some_iff {word : String} {a : Action} :
    ofKeyword? word = some a ↔ word = a.keyword := by
  constructor
  · intro h
    have h' := List.find?_some h
    exact (of_decide_eq_true h').symm
  · rintro rfl
    exact ofKeyword?_keyword a

theorem ofKeyword?_eq_none_iff {word : String} :
    ofKeyword? word = none ↔ ∀ a : Action, word ≠ a.keyword := by
  constructor
  · rintro h a rfl
    rw [ofKeyword?_keyword] at h
    cases h
  · intro h
    cases ha : ofKeyword? word with
    | none => rfl
    | some a => exact absurd (ofKeyword?_eq_some_iff.mp ha) (h a)

/-- What an action does, in one line for the user. -/
def description : Action → String
  | early => "shift the track earlier in time"
  | late => "shift the track later in time"
  | flat => "lower the pitch by one semitone"
  | sharp => "raise the pitch by one semitone"
  | halfFlat => "lower the pitch by a quarter tone"
  | halfSharp => "raise the pitch by a quarter tone"
  | octaveUp => "raise the pitch by an octave"
  | octaveDown => "lower the pitch by an octave"

end Action

end Remix
