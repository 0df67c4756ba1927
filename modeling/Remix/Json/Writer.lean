import Remix.Bytes
import Remix.Number.Text

/-!
# Writing JSON

The values of a record, each as text, and the record itself with one member a line. Floating-point
numbers are written with the fewest digits that read back, always with a point or an exponent.
-/

namespace Remix

/-- Where numbers are written with an exponent: those with more than `most` digits before the point,
and those with `zeros` zeros or more behind it. -/
structure FloatingStyle where
  most : Int
  zeros : Int
  deriving DecidableEq, Repr

/-- A decimal with a point or an exponent. -/
def Decimal.floating (style : FloatingStyle) (d : Decimal) : String :=
  let digits := toString d.digits
  let whole : Int := digits.length + d.exponent
  if d.digits = 0 then "0.0"
  else if 0 ≤ d.exponent ∧ whole ≤ style.most then digits ++ zeros d.exponent.toNat ++ ".0"
  else if d.exponent < 0 ∧ -style.zeros < whole ∧ whole ≤ style.most then
    withPlaces d.digits (-d.exponent).toNat
  else
    let size := if d.digits < 10 then digits else withPlaces d.digits (digits.length - 1)
    s!"{size}e{whole - 1}"

namespace Json

def doubleStyle : FloatingStyle := ⟨16, 5⟩

def singleStyle : FloatingStyle := ⟨13, 6⟩

/-- A number of a format; what is not finite has no other text than `null`. -/
def floating (f : Format) (style : FloatingStyle) : Exact → String
  | .finite negative m => (if negative then "-" else "") ++ (f.shortest m).floating style
  | _ => "null"

def ofFloat (x : Float) : String := floating .double doubleStyle (.ofFloat x)

def ofFloat32 (x : Float32) : String := floating .single singleStyle (.ofFloat32 x)

def ofNat (n : Nat) : String := toString n

/-- A value that may be missing. -/
def orNull {α : Type} (write : α → String) : Option α → String
  | some a => write a
  | none => "null"

/-- A character as it stands in a string. -/
def escape (c : Char) : List Char :=
  if c = '"' then ['\\', '"']
  else if c = '\\' then ['\\', '\\']
  else if c = '\x08' then ['\\', 'b']
  else if c = '\x0c' then ['\\', 'f']
  else if c = '\n' then ['\\', 'n']
  else if c = '\r' then ['\\', 'r']
  else if c = '\t' then ['\\', 't']
  else if c < ' ' then ['\\', 'u', '0', '0', hexDigit (c.toNat / 16), hexDigit (c.toNat % 16)]
  else [c]

def ofString (s : String) : String := String.ofList ('"' :: s.toList.flatMap escape ++ ['"'])

/-- Values of a member of a record, one a line. -/
def ofList (values : List String) : String :=
  if values.isEmpty then "[]"
  else "[\n    " ++ ",\n    ".intercalate values ++ "\n  ]"

/-- A record of named values, one a line. -/
def ofMembers (members : List (String × String)) : String :=
  "\x7b\n  " ++ ",\n  ".intercalate (members.map fun (name, v) => ofString name ++ ": " ++ v) ++
    "\n\x7d"

end Json

end Remix
