import Remix.Number.Exact

/-!
# Shortest decimals

The decimal with the fewest digits that a format still tells apart from its other numbers. All
decimals between the midpoints to the two neighbours of a number read back as that number; the
midpoints do so themselves if the number is even. Of the decimals with the fewest digits the nearest
one is taken.
-/

namespace Remix

/-- The number `digits · 10 ^ exponent`. -/
structure Decimal where
  digits : Nat
  exponent : Int
  deriving DecidableEq, Repr

namespace Format

/-- The multiple of `10 ^ exponent` that reads back as `magnitude` and is nearest to it, if there is
one; of two equally near the larger. Distances are measured in quarters of the smallest positive
number, over a common denominator. -/
def nearestOnGrid (f : Format) (magnitude : Nat) (exponent : Int) : Option Decimal :=
  let step := f.step magnitude
  let below := if magnitude = Nat.pow 2 f.fractionBits * step ∧ 1 < step then step else 2 * step
  let even := magnitude / step % 2 = 0
  let scale := Nat.pow 10 (-exponent).toNat
  let unit := Nat.pow 2 (f.unitBits + 2) * Nat.pow 10 exponent.toNat
  let value := 4 * magnitude * scale
  let low := (4 * magnitude - below) * scale
  let high := (4 * magnitude + 2 * step) * scale
  let inside (n : Nat) : Bool :=
    if even then low ≤ n * unit ∧ n * unit ≤ high else low < n * unit ∧ n * unit < high
  let n := value / unit
  if inside (n + 1) ∧ ((n + 1) * unit - value ≤ value - n * unit ∨ ¬ inside n) then
    some ⟨n + 1, exponent⟩
  else if inside n then some ⟨n, exponent⟩
  else none

/-- The shortest decimal for a magnitude of a format. Grids are tried from a power of ten above the
number down to one that is finer than every gap of the format. -/
def shortest (f : Format) (magnitude : Nat) : Decimal :=
  if magnitude = 0 then ⟨0, 0⟩
  else
    let top : Int := ((magnitude.log2 : Int) + 1 - f.unitBits) * 30103 / 100000 + 2
    let grids := (List.range (f.fractionBits + 8)).map fun (i : Nat) => top - i
    (grids.findSome? (f.nearestOnGrid magnitude)).getD ⟨0, 0⟩

end Format

end Remix
