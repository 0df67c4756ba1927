import Remix.Error
import Remix.Plan.Build
import Remix.Recipe.Parser

/-!
# Compiling a recipe

From the text of a recipe to its plan.
-/

namespace Remix

namespace Recipe

/-- The events of reading a text: each statement that ends in `drop`, by its place in the text. -/
def Reading.events (r : Reading) : List Event :=
  r.clauses.zipIdx.filterMap fun (clause, i) =>
    match clause with
    | .dropped => some (.dropped i)
    | .kept _ => none

end Recipe

/-- The recipe that a text holds. -/
def readRecipe (text : String) : Traced Event Error Recipe := do
  let reading := Recipe.read text
  Traced.tellAll reading.events
  let statements ← Traced.ofExcept (reading.statements.mapError .badRecipe)
  return ⟨statements.map (·.value)⟩

/-- The plan of the recipe that a text holds. -/
def compile (text : String) : Traced Event Error Plan := do
  (Plan.build (← readRecipe text)).mapError .badNames

theorem result_readRecipe (text : String) :
    (readRecipe text).result = (Recipe.ofText text).mapError Error.badRecipe := by
  unfold readRecipe
  rw [Traced.result_bind_ok (Traced.result_tellAll _), Traced.result_bind]
  change ((Recipe.parse text).mapError Error.badRecipe >>= _) = _
  unfold Recipe.ofText
  cases Recipe.parse text <;> rfl

theorem result_compile (text : String) : (compile text).result =
    (Recipe.ofText text).mapError Error.badRecipe >>= fun r =>
      (Plan.ofRecipe r).mapError Error.badNames := by
  rw [compile, Traced.result_bind, result_readRecipe]
  rfl

theorem result_compile_of_ofText {text : String} {r : Recipe} (h : Recipe.ofText text = .ok r) :
    (compile text).result = (Plan.ofRecipe r).mapError Error.badNames := by
  rw [result_compile, h]
  rfl

theorem compile_eq_ok_iff {text : String} {plan : Plan} : (compile text).result = .ok plan ↔
    ∃ r, Recipe.ofText text = .ok r ∧ Plan.ofRecipe r = .ok plan := by
  constructor
  · intro h
    cases hr : Recipe.ofText text with
    | error e =>
      rw [result_compile, hr] at h
      cases h
    | ok r =>
      rw [result_compile_of_ofText hr] at h
      cases hplan : Plan.ofRecipe r with
      | error e =>
        rw [hplan] at h
        cases h
      | ok p =>
        rw [hplan] at h
        cases h
        exact ⟨r, rfl, hplan⟩
  · rintro ⟨r, hr, hplan⟩
    rw [result_compile_of_ofText hr, hplan]
    rfl

end Remix
