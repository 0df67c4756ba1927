import Remix.Stem
import Remix.Transform.Basic

/-!
# Runtime errors

What can stop the execution of a plan, or the mixing of its output.
-/

namespace Remix

inductive RuntimeError where
  | missingStem (stem : Stem) (statement : Nat)
  | missingSink (name : String) (statement : Nat)
  | transformFailed (statement : Nat) (action : Action) (cause : TransformError)
  | incompatibleRate (context : String) (expected found : UInt32)
  | nothingToMix
  /-- There is no room in store for the sink of a statement of that number. -/
  | noRoom (statement : Nat)
  deriving DecidableEq, Repr

namespace RuntimeError

def message : RuntimeError → String
  | missingStem s i => s!"statement {i}: stem '{s.name}' was not produced by separation"
  | missingSink name i => s!"statement {i}: sink '{name}' is no longer available"
  | transformFailed i a cause => s!"statement {i}: action '{a.keyword}' failed: {cause.message}"
  | incompatibleRate context expected found =>
    s!"incompatible sample rate in {context}: expected {expected.toNat} Hz, found {found.toNat} Hz"
  | nothingToMix => "no retained buffers to mix"
  | noRoom i => s!"statement {i}: there is no room for its sink"

end RuntimeError

end Remix
