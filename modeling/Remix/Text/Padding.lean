/-!
# Padding

Texts filled with blanks to a least width, for columns of a table. A text that is wider stays as it
is.
-/

namespace Remix.Text

/-- A text filled with blanks on the left up to `width` characters. -/
def padLeft (width : Nat) (text : String) : String :=
  String.ofList (List.replicate (width - text.length) ' ') ++ text

/-- A text filled with blanks on the right up to `width` characters. -/
def padRight (width : Nat) (text : String) : String :=
  text ++ String.ofList (List.replicate (width - text.length) ' ')

end Remix.Text
