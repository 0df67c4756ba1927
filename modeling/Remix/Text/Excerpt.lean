import Remix.Bytes
import Remix.Text.Padding
import Remix.Text.Position

/-!
# Excerpts

The line of a text that holds a position, with a caret under the column.
-/

namespace Remix.Text

/-- The lines of a text. A line ends with a line feed, which may follow a carriage return; neither
belongs to the line. Characters after the last line feed are a line only if there are some. -/
def lines : List Char → List (List Char)
  | [] => []
  | '\n' :: cs => [] :: lines cs
  | '\r' :: '\n' :: cs => [] :: lines cs
  | c :: cs =>
    match lines cs with
    | [] => [[c]]
    | l :: ls => (c :: l) :: ls

/-- The line that holds `p`. There is none for a position past the last line. -/
def lineAt? (text : String) (p : Position) : Option String :=
  if p.line = 0 then none else (lines text.toList)[p.line - 1]?.map String.ofList

/-- The line that holds `p` and below it a caret under its column. -/
def excerpt (text : String) (p : Position) : Option String :=
  (lineAt? text p).map fun line =>
    s!"{padLeft 4 (toString p.line)} | {line}\n     | " ++
      String.ofList (List.replicate (p.column - 1) ' ') ++ "^"

/-- Whether there is room for the excerpt, if there is one: every column takes a byte. -/
def excerptFits (text : String) (p : Position) : Bool :=
  (lineAt? text p).isNone || p.column - 1 ≤ maxBytes

end Remix.Text
