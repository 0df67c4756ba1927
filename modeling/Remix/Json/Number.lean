/-!
# Numbers in JSON

A number is written with a sign, digits, a fraction and an exponent. `Numeral` is what is written;
`Numeral.value` is the number that it is read as: a whole number where it has that form and is not
too large, and otherwise a double, which is a number of at most 64 bits scaled by a power of ten.
-/

namespace Remix.Json

/-- A number as it is written, by its digits. There is no fraction without digits. -/
structure Numeral where
  negative : Bool
  whole : List Nat
  fraction : List Nat
  exponent : Option Int
  deriving DecidableEq, Repr

/-- The number that a numeral is read as. -/
inductive Number where
  | whole (v : Int)
  | double (x : Float)
  deriving DecidableEq

namespace Numeral

/-- The digits at the beginning of a text, and what follows them. -/
def digits (cs : List Char) : List Nat × List Char :=
  ((cs.takeWhile Char.isDigit).map fun c => c.toNat - '0'.toNat, cs.dropWhile Char.isDigit)

/-- The number that digits stand for. -/
def ofDigits (ds : List Nat) : Nat := ds.foldl (fun n d => 10 * n + d) 0

/-- An exponent behind its letter. -/
def exponent? (cs : List Char) : Option Int :=
  let (negative, unsigned) := match cs with
    | '-' :: rest => (true, rest)
    | '+' :: rest => (false, rest)
    | _ => (false, cs)
  match digits unsigned with
  | (d :: ds, []) =>
    let n : Int := ofDigits (d :: ds)
    some (if negative then -n else n)
  | _ => none

/-- The numeral that a text is, if it is one. Digits before the point have no zero in front. -/
def ofChars? (cs : List Char) : Option Numeral := do
  let (negative, cs) := match cs with
    | '-' :: rest => (true, rest)
    | _ => (false, cs)
  let (whole, cs) := digits cs
  guard (whole ≠ [] ∧ (whole.head? = some 0 → whole = [0]))
  let (fraction, cs) ← match cs with
    | '.' :: rest =>
      match digits rest with
      | ([], _) => none
      | found => some found
    | _ => some ([], cs)
  match cs with
  | [] => return ⟨negative, whole, fraction, none⟩
  | c :: rest =>
    guard (c = 'e' ∨ c = 'E')
    return ⟨negative, whole, fraction, some (← exponent? rest)⟩

/-- Takes digits into a number as long as it fits in 64 bits. Gives the number and the digits that
are left. -/
def absorb : Nat → List Nat → Nat × List Nat
  | n, [] => (n, [])
  | n, d :: ds => if 10 * n + d < UInt64.size then absorb (10 * n + d) ds else (n, d :: ds)

/-- A number times a power of ten, computed in double precision. There is none if it is too
large. -/
def scale (x : Float) (e : Int) : Option Float :=
  if 308 < e then if x == 0 then some x else none
  else if 0 ≤ e then
    let y := x * Float.ofScientific 1 false e.toNat
    if y.isInf then none else some y
  else if -308 ≤ e then some (x / Float.ofScientific 1 false (-e).toNat)
  else if x == 0 then some x
  else scale (x / Float.ofScientific 1 false 308) (e + 308)
termination_by (-e).toNat

/-- The number that a numeral is read as. Zero with a minus is not a whole number; digits that do
not fit in 64 bits only count as places. There is no value that is too large for a double. -/
def value (n : Numeral) : Option Number :=
  let (coarse, left) := absorb 0 n.whole
  let (fine, ignored) := absorb coarse n.fraction
  if n.fraction = [] ∧ n.exponent = none ∧ left = [] ∧
      (n.negative → 0 < coarse ∧ coarse ≤ UInt64.size / 2) then
    some (.whole (if n.negative then -coarse else coarse))
  else
    let places : Int := n.fraction.length - ignored.length
    let size := scale (UInt64.ofNat fine).toFloat (n.exponent.getD 0 + left.length - places)
    size.map fun x => .double (if n.negative then -x else x)

end Numeral

namespace Number

/-- The nearest number in single precision. -/
def toFloat32 : Number → Float32
  | whole v =>
    let size := (UInt64.ofNat v.natAbs).toFloat32
    if v < 0 then -size else size
  | double x => x.toFloat32

/-- The natural number up to a bound that a number is. -/
def natural? (bound : Nat) : Number → Option Nat
  | whole v => if 0 ≤ v ∧ v ≤ bound then some v.toNat else none
  | double _ => none

end Number

end Remix.Json
