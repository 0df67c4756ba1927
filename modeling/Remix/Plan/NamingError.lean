/-!
# Naming errors

The rules that the names of a recipe can break. Statements are counted from 0.
-/

namespace Remix

/-- A rule on names that a recipe breaks. -/
inductive NamingError where
  | unknownReference (name : String) (statement : Nat)
  | duplicateName (name : String) (statement firstDefined : Nat)
  | reservedName (name : String) (statement : Nat)
  | emptyOutput
  deriving DecidableEq, Repr

namespace NamingError

def message : NamingError → String
  | unknownReference name i => s!"statement {i}: '{name}' is not a stem or an earlier sink"
  | duplicateName name i first =>
    s!"statement {i}: sink '{name}' is already defined by statement {first}"
  | reservedName name i => s!"statement {i}: '{name}' is a reserved stem name"
  | emptyOutput => "recipe saves nothing; wrap at least one sink in save(...)"

/-- The statement that breaks the rule, if it is a rule on single statements. -/
def statement? : NamingError → Option Nat
  | unknownReference _ i | duplicateName _ i _ | reservedName _ i => some i
  | emptyOutput => none

end NamingError

end Remix
