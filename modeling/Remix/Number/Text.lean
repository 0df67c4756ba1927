import Remix.Number.Shortest

/-!
# Numbers as text

Numbers are written either with the fewest digits that read back, always positionally, or rounded to
a fixed number of places.
-/

namespace Remix

/-- A run of zeros. -/
def zeros (n : Nat) : String := String.ofList (List.replicate n '0')

/-- A natural number divided by a power of ten, with all its places. -/
def withPlaces (n places : Nat) : String :=
  if places = 0 then toString n
  else
    let digits := toString n
    let padded := zeros (places + 1 - digits.length) ++ digits
    let whole := padded.length - places
    String.ofList (padded.toList.take whole) ++ "." ++ String.ofList (padded.toList.drop whole)

namespace Decimal

/-- A decimal without an exponent. -/
def positional (d : Decimal) : String :=
  if d.exponent < 0 then withPlaces d.digits (-d.exponent).toNat
  else if d.digits = 0 then "0"
  else toString d.digits ++ zeros d.exponent.toNat

end Decimal

/-- The quotient rounded to the nearest whole number, a half to the even one. -/
def roundHalfEven (num den : Nat) : Nat :=
  let q := num / den
  let r := num % den
  if 2 * r < den then q else if den < 2 * r then q + 1 else q + q % 2

namespace Exact

/-- The sign of a number in front of its size, where `plus` stands for no minus. -/
def signed (plus : String) (x : Exact) (size : Nat → String) : String :=
  match x with
  | nan => "NaN"
  | infinite negative => (if negative then "-" else plus) ++ "inf"
  | finite negative m => (if negative then "-" else plus) ++ size m

/-- A number of a format with the fewest digits that read back, with a given sign for positive
numbers. -/
def shortestText (f : Format) (plus : String) (x : Exact) : String :=
  x.signed plus fun m => (f.shortest m).positional

/-- A number of a format rounded to `places` places after the point. -/
def fixedText (f : Format) (places : Nat) (x : Exact) : String :=
  x.signed "" fun m =>
    withPlaces (roundHalfEven (m * Nat.pow 10 places) (Nat.pow 2 f.unitBits)) places

end Exact

/-- The fewest digits that read back as the number. -/
def float32Text (x : Float32) : String := (Exact.ofFloat32 x).shortestText .single ""

/-- The fewest digits that read back as the number. -/
def floatText (x : Float) : String := (Exact.ofFloat x).shortestText .double ""

/-- The same with a sign also in front of a positive number. -/
def signedFloatText (x : Float) : String := (Exact.ofFloat x).shortestText .double "+"

def fixedFloat32Text (places : Nat) (x : Float32) : String :=
  (Exact.ofFloat32 x).fixedText .single places

def fixedFloatText (places : Nat) (x : Float) : String :=
  (Exact.ofFloat x).fixedText .double places

end Remix
