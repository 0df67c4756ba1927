import Remix.CommandLine.Run
import Remix.Proofs.CanonicalForm

/-!
# Formatting

What the command prints that formats a recipe is the canonical form. A recipe with a statement keeps
its form and its meaning when it is formatted. One whose statements have all been dropped has the
empty text as its form, which is no recipe.
-/

namespace Remix

open Recipe (ofText)

namespace CommandLine

variable {f : Files} {stamp : Stamp} {source : RecipeSource} {text : String} {r : Recipe}

lemma result_withExcerpt {α : Type} (text : String) (x : Run α) :
    (withExcerpt text x).result = x.result := by
  unfold withExcerpt
  split <;> rfl

lemma withExcerpt_of_ok {α : Type} {x : Run α} {a : α} (h : x.result = .ok a) (text : String) :
    withExcerpt text x = x := by
  unfold withExcerpt
  rw [h]

lemma events_load (f : Files) (source : RecipeSource) : (source.load f).events = [] := by
  cases source with
  | text t => rfl
  | file path =>
    rw [RecipeSource.load]
    cases f.readText path <;> rfl

/-- A text is formatted without failure if it holds a recipe. -/
lemma exists_recipe_of_format (h : (Command.run f stamp (.format source)).failure = none) :
    ∃ text r, (source.load f).result = .ok text ∧ ofText text = .ok r := by
  have hresult : (format f source).result = .ok () := by
    change (Outcome.ofRun f (format f source)).failure = none at h
    unfold Outcome.ofRun at h
    split at h
    · assumption
    · cases h
  obtain ⟨text, htext, hrest⟩ := Traced.result_bind_eq_ok_iff.mp hresult
  obtain ⟨r, hr, -⟩ := Traced.result_bind_eq_ok_iff.mp hrest
  rw [result_withExcerpt] at hr
  change ((readRecipe text).result.mapError Failure.error) = .ok r at hr
  rw [result_readRecipe] at hr
  refine ⟨text, r, htext, ?_⟩
  cases hread : ofText text with
  | error e =>
    rw [hread] at hr
    cases hr
  | ok r' =>
    rw [hread] at hr
    cases hr
    rfl

/-- What is printed of a recipe is its canonical form, and nothing else. -/
lemma run_format (hload : (source.load f).result = .ok text) (hr : ofText text = .ok r) :
    (Command.run f stamp (.format source)).failure = none ∧
      (Command.run f stamp (.format source)).printed = r.text := by
  have hread : (perform (readRecipe text)).result = .ok r := by
    change (readRecipe text).result.mapError Failure.error = _
    rw [result_readRecipe, hr]
    rfl
  have hresult : (format f source).result = .ok () := by
    rw [format, Traced.result_bind_ok hload, withExcerpt_of_ok hread, Traced.result_bind_ok hread]
    rfl
  have hevents : (format f source).events =
      (readRecipe text).events.map Notice.event ++ [.printed r.text] := by
    rw [format, Traced.events_bind_ok hload, events_load, withExcerpt_of_ok hread,
      Traced.events_bind_ok hread]
    rfl
  change (Outcome.ofRun f (format f source)).failure = none ∧
    (Outcome.ofRun f (format f source)).printed = r.text
  unfold Outcome.ofRun Outcome.printed
  rw [hresult, hevents]
  refine ⟨rfl, ?_⟩
  simp [List.filterMap_append, List.filterMap_map]

/-- What the command prints that formats a source, where `text` is loaded from the source and `r` is
read from it. -/
structure IsFormatted (f : Files) (stamp : Stamp) (source : RecipeSource) (text : String)
    (r : Recipe) : Prop where
  loaded : (source.load f).result = .ok text
  parsed : ofText text = .ok r
  printed : (Command.run f stamp (.format source)).printed = r.text
  /-- If a statement is left, formatting a second time changes nothing, and what has been formatted
  compiles like what was written. -/
  kept : (∃ c ∈ (Recipe.read text).clauses, c ≠ .dropped) →
    ofText r.text = .ok r ∧
    (Command.run f stamp (.format (.text r.text))).failure = none ∧
    (Command.run f stamp (.format (.text r.text))).printed = r.text ∧
    (compile text).result = (Plan.ofRecipe r).mapError .badNames ∧
    (compile r.text).result = (compile text).result
  /-- If all statements end in `drop`, nothing is printed, and that is no recipe. -/
  dropped : (∀ c ∈ (Recipe.read text).clauses, c = .dropped) →
    r.text = "" ∧ ofText r.text = .error ⟨.emptyRecipe, .start⟩ ∧
    (compile text).result = .error (.badNames .emptyOutput)

/-- Where a source is formatted without failure, its canonical form is printed, which means what the
source does unless all of it is dropped. -/
theorem format_idempotent (f : Files) (stamp : Stamp) (source : RecipeSource)
    (h : (Command.run f stamp (.format source)).failure = none) :
    ∃ text r, IsFormatted f stamp source text r := by
  obtain ⟨text, r, hload, hr⟩ := exists_recipe_of_format h
  have hnil := Recipe.statements_eq_nil_iff hr
  refine ⟨text, r, hload, hr, (run_format hload hr).2, fun hkept => ?_, fun hdropped => ?_⟩
  · have hne : r.statements ≠ [] := by
      obtain ⟨c, hc, hcne⟩ := hkept
      exact fun hstatements => hcne (hnil.mp hstatements c hc)
    have hback : ofText r.text = .ok r := Recipe.ofText_text hne (Recipe.writable_of_ofText hr)
    have hagain : (Command.run f stamp (.format (.text r.text))).failure = none ∧
        (Command.run f stamp (.format (.text r.text))).printed = r.text := run_format rfl hback
    refine ⟨hback, hagain.1, hagain.2, result_compile_of_ofText hr, ?_⟩
    rw [result_compile_of_ofText hback, result_compile_of_ofText hr]
  · obtain ⟨statements⟩ := r
    obtain rfl : statements = [] := hnil.mpr hdropped
    refine ⟨rfl, rfl, ?_⟩
    rw [result_compile_of_ofText hr]
    rfl

/-- A recipe that is written untidily, with a statement that is dropped. -/
def untidy : RecipeSource := .text "drums -> drop;vocals->late -> save( v ) ;"

theorem format_idempotent_untidy :
    let outcome := Command.run .empty ⟨"", "", 0⟩ (.format untidy)
    outcome.failure = none ∧ outcome.printed = "vocals -> late -> save(v);\n" ∧
    ∃ text r, IsFormatted .empty ⟨"", "", 0⟩ untidy text r := by
  have hsuccess : (Command.run .empty ⟨"", "", 0⟩ (.format untidy)).failure = none := by rfl
  exact ⟨hsuccess, by decide, format_idempotent .empty ⟨"", "", 0⟩ untidy hsuccess⟩

/-- A recipe of which nothing is left is formatted without failure, but what is printed is not read
again, and fails to compile for another reason. -/
theorem format_idempotent_fails_dropped :
    let outcome := Command.run .empty ⟨"", "", 0⟩ (.format (.text "vocals -> drop;"))
    outcome.failure = none ∧ outcome.printed = "" ∧
    ofText outcome.printed = .error ⟨.emptyRecipe, .start⟩ ∧
    (compile "vocals -> drop;").result = .error (.badNames .emptyOutput) ∧
    (compile outcome.printed).result = .error (.badRecipe ⟨.emptyRecipe, .start⟩) ∧
    (Command.run .empty ⟨"", "", 0⟩ (.format (.text outcome.printed))).failure ≠ none := by
  have hprinted :
      (Command.run .empty ⟨"", "", 0⟩ (.format (.text "vocals -> drop;"))).printed = "" := by
    decide
  dsimp only
  rw [hprinted]
  exact ⟨rfl, rfl, by decide, rfl, rfl, nofun⟩

end CommandLine

end Remix
