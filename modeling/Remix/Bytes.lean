/-!
# Bytes

The content of files is lists of bytes. `toBytes` and `ofBytes` go between numbers and bytes, the
lowest byte first; `signed` reads two's complement; `groups` cuts a list into pieces of equal width.
-/

namespace Remix

abbrev Bytes := List UInt8

/-- The largest number of bytes that one piece of memory has. -/
def maxBytes : Nat := UInt64.size / 2 - 1

/-- The `width` lowest bytes of a number, the lowest first. -/
def toBytes : Nat → Nat → Bytes
  | 0, _ => []
  | width + 1, n => UInt8.ofNat n :: toBytes width (n / 256)

/-- The number that bytes stand for, the lowest first. -/
def ofBytes : Bytes → Nat
  | [] => 0
  | b :: bytes => b.toNat + 256 * ofBytes bytes

@[simp] theorem length_toBytes (width n : Nat) : (toBytes width n).length = width := by
  induction width generalizing n with
  | zero => rfl
  | succ width ih => simp [toBytes, ih]

@[simp] theorem ofBytes_toBytes (width n : Nat) :
    ofBytes (toBytes width n) = n % Nat.pow 256 width := by
  induction width generalizing n with
  | zero => exact (Nat.mod_one n).symm
  | succ width ih =>
    have h : Nat.pow 256 (width + 1) = 256 * Nat.pow 256 width :=
      Nat.mul_comm (Nat.pow 256 width) 256
    rw [toBytes, ofBytes, ih, UInt8.toNat_ofNat', h, Nat.mod_mul]

/-- The bytes of a whole number in two's complement, as many as `width`. -/
def signedBytes (width : Nat) (v : Int) : Bytes :=
  toBytes width (v % (Nat.pow 256 width : Nat)).toNat

/-- The whole number that the lowest `bits` bits of `n` are in two's complement. -/
def signed (bits n : Nat) : Int := (n : Int).bmod (Nat.pow 2 bits)

/-- The first `count` groups of `width` elements of a list, if it is that long, put after groups
that are given last group first. -/
def groupsAfter {α : Type} (width : Nat) : Nat → List (List α) → List α → Option (List (List α))
  | 0, done, _ => some done.reverse
  | count + 1, done, xs =>
    let group := xs.take width
    if group.length = width then groupsAfter width count (group :: done) (xs.drop width) else none

/-- The first `count` groups of `width` elements of a list, if it is that long. -/
def groups {α : Type} (width count : Nat) (xs : List α) : Option (List (List α)) :=
  groupsAfter width count [] xs

def hexDigit (n : Nat) : Char :=
  if n < 10 then Char.ofNat ('0'.toNat + n) else Char.ofNat ('a'.toNat + (n - 10))

/-- Bytes in hexadecimal, two digits each. -/
def hexText (bytes : Bytes) : String :=
  String.ofList (bytes.flatMap fun b => [hexDigit (b.toNat / 16), hexDigit (b.toNat % 16)])

end Remix
