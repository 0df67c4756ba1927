import Remix.Json.Token

/-!
# Objects and arrays of scalars

The two forms in which a flat record is written: its members by name, or its values in order.
-/

namespace Remix.Json

/-- The members of an object that the tokens behind its opening brace, or behind a comma, hold. -/
def membersFrom : List Token → Option (List (String × Scalar))
  | [.scalar (.text key), .mark ':', .scalar v, .mark '\x7d'] => some [(key, v)]
  | .scalar (.text key) :: .mark ':' :: .scalar v :: .mark ',' :: rest =>
    (membersFrom rest).map ((key, v) :: ·)
  | _ => none

/-- The members of an object whose values are scalars, in order. -/
def members? : List Token → Option (List (String × Scalar))
  | [.mark '\x7b', .mark '\x7d'] => some []
  | .mark '\x7b' :: rest => membersFrom rest
  | _ => none

/-- The elements of an array that the tokens behind its opening bracket, or behind a comma, hold. -/
def elementsFrom : List Token → Option (List Scalar)
  | [.scalar v, .mark ']'] => some [v]
  | .scalar v :: .mark ',' :: rest => (elementsFrom rest).map (v :: ·)
  | _ => none

/-- The elements of an array of scalars. -/
def elements? : List Token → Option (List Scalar)
  | [.mark '[', .mark ']'] => some []
  | .mark '[' :: rest => elementsFrom rest
  | _ => none

end Remix.Json
