import Remix.Text.Position

/-!
# Tokens

The five kinds of token in a recipe and the way each is written.
-/

namespace Remix.Recipe

inductive Token where
  | word (letters : String)
  | arrow
  | saveOpen
  | closeParen
  | semicolon
  deriving DecidableEq, Repr

namespace Token

/-- The characters of a token. -/
def text : Token → String
  | word letters => letters
  | arrow => "->"
  | saveOpen => "save("
  | closeParen => ")"
  | semicolon => ";"

end Token

/-- Words are runs of ASCII letters and digits. -/
def isWordChar (c : Char) : Bool := c.isAlphanum

/-- The word that opens a saved sink when a parenthesis follows it directly. -/
def saveWord : String := "save"

/-- The word that stands in place of a sink when the result of a statement is not wanted. -/
def dropWord : String := "drop"

end Remix.Recipe
