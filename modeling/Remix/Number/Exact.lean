/-!
# The exact value of a floating-point number

A finite number of a binary format is a multiple of the smallest positive number of that format. Its
magnitude is that multiple, a natural number, on which everything exact can be computed.
-/

namespace Remix

/-- A binary interchange format: the bits of the fraction and of the exponent. -/
structure Format where
  fractionBits : Nat
  exponentBits : Nat
  deriving DecidableEq, Repr

namespace Format

def single : Format := ⟨23, 8⟩

def double : Format := ⟨52, 11⟩

/-- The smallest positive number of a format is 2 to the power of minus this. -/
def unitBits (f : Format) : Nat := Nat.pow 2 (f.exponentBits - 1) - 2 + f.fractionBits

/-- The distance from a magnitude to the next larger one of the format. -/
def step (f : Format) (magnitude : Nat) : Nat :=
  if magnitude < Nat.pow 2 (f.fractionBits + 1) then 1
  else Nat.pow 2 (magnitude.log2 - f.fractionBits)

end Format

/-- The value of a floating-point number, a finite one by its magnitude. -/
inductive Exact where
  | nan
  | infinite (negative : Bool)
  | finite (negative : Bool) (magnitude : Nat)
  deriving DecidableEq, Repr

namespace Exact

/-- The value that a bit pattern stands for. -/
def ofBits (f : Format) (bits : Nat) : Exact :=
  let fraction := bits % Nat.pow 2 f.fractionBits
  let exponent := bits / Nat.pow 2 f.fractionBits % Nat.pow 2 f.exponentBits
  let negative := bits / Nat.pow 2 (f.fractionBits + f.exponentBits) % 2 = 1
  if exponent = Nat.pow 2 f.exponentBits - 1 then
    if fraction = 0 then infinite negative else nan
  else if exponent = 0 then finite negative fraction
  else finite negative ((Nat.pow 2 f.fractionBits + fraction) * Nat.pow 2 (exponent - 1))

def ofFloat32 (x : Float32) : Exact := ofBits .single x.toBits.toNat

def ofFloat (x : Float) : Exact := ofBits .double x.toBits.toNat

end Exact

/-- The bit pattern of a magnitude of a format, without a sign. -/
def Format.bitsOf (f : Format) (magnitude : Nat) : Nat :=
  if magnitude < Nat.pow 2 (f.fractionBits + 1) then magnitude
  else
    let shift := magnitude.log2 - f.fractionBits
    shift * Nat.pow 2 f.fractionBits + magnitude / Nat.pow 2 shift

/-- The number with a given sign and magnitude. -/
def floatOfMagnitude (negative : Bool) (magnitude : Nat) : Float :=
  let x := Float.ofBits (Format.double.bitsOf magnitude).toUInt64
  if negative then -x else x

end Remix
