import Remix.Action
import Remix.Audio.Buffer

/-!
# Transforms

A transform makes a new buffer from a buffer, or fails. A recipe only names actions; `Transforms`
says what each of them does.
-/

namespace Remix

/-- Why a transform gives no usable buffer. -/
inductive TransformError where
  | unsupportedRate (rate : UInt32)
  | notFinite
  | badLayout (problem : String)
  | failed (reason : String)
  /-- A channel of `length` samples cannot be turned by more than that. -/
  | overturned (length shift : Nat)
  deriving DecidableEq, Repr

namespace TransformError

def message : TransformError → String
  | unsupportedRate rate => s!"unsupported sample rate: {rate.toNat} Hz"
  | notFinite => "transform produced invalid audio (NaN/Inf)"
  | badLayout problem => s!"transform returned a malformed buffer: {problem}"
  | failed reason => reason
  | overturned length shift => s!"a channel of {length} samples cannot be turned by {shift}"

end TransformError

/-- What each action does to a buffer. -/
abbrev Transforms := Action → Buffer → Except TransformError Buffer

end Remix
