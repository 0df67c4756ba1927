import Remix.Number.Exact

/-!
# Remainders of floating-point numbers

The remainder of a division is always exact: the remainder of two magnitudes is a magnitude of the
same format.
-/

namespace Remix

/-- What is left of `x` after taking away a whole number of `y`s, with the sign of `x`. -/
def truncatedRemainder (x y : Float) : Float :=
  match Exact.ofFloat x, Exact.ofFloat y with
  | .finite negative m, .finite _ n =>
    if n = 0 then 0 / 0 else floatOfMagnitude negative (m % n)
  | .finite _ _, .infinite _ => x
  | _, _ => 0 / 0

/-- The remainder of `x` by `y` that is not negative. -/
def wrap (x y : Float) : Float :=
  let r := truncatedRemainder x y
  if r < 0 then r + y.abs else r

end Remix
