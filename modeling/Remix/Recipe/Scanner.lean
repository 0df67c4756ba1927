import Remix.Recipe.SyntaxError
import Remix.Recipe.Token
import Remix.Text.Blank

/-!
# From characters to tokens

The scanner takes the characters of a text one at a time. Between two characters it holds the tokens
found so far and the beginning of a token that the next characters may complete. A fault stops it
for good. `tokens` runs it over a whole text.
-/

namespace Remix.Recipe

open Text (Placed Position isBlank)

/-- What the scanner has seen of a token that is not complete. -/
inductive Pending where
  | nothing
  | dash (start : Position)
  | word (start : Position) (letters : String)
  | stopped (error : SyntaxError)
  deriving DecidableEq, Repr

/-- The scanner between two characters. The newest token comes first. -/
structure Scanner where
  position : Position
  pending : Pending
  found : List (Placed Token)
  deriving DecidableEq, Repr

namespace Scanner

def initial : Scanner := ⟨.start, .nothing, []⟩

/-- Takes a character that continues no token. -/
def start (s : Scanner) (c : Char) : Scanner :=
  let next := s.position.advance c
  if isBlank c then ⟨next, .nothing, s.found⟩
  else if c = ';' then ⟨next, .nothing, ⟨.semicolon, s.position⟩ :: s.found⟩
  else if c = ')' then ⟨next, .nothing, ⟨.closeParen, s.position⟩ :: s.found⟩
  else if c = '-' then ⟨next, .dash s.position, s.found⟩
  else if isWordChar c then ⟨next, .word s.position (String.ofList [c]), s.found⟩
  else ⟨s.position, .stopped ⟨.unexpectedChar c, s.position⟩, s.found⟩

/-- Takes one character. A parenthesis belongs to the word before it only after `save`. -/
def step (s : Scanner) (c : Char) : Scanner :=
  match s.pending with
  | .stopped _ => s
  | .nothing => s.start c
  | .dash p =>
    if c = '>' then ⟨s.position.advance c, .nothing, ⟨.arrow, p⟩ :: s.found⟩
    else ⟨s.position, .stopped ⟨.unexpectedChar '-', p⟩, s.found⟩
  | .word p letters =>
    if isWordChar c then ⟨s.position.advance c, .word p (letters.push c), s.found⟩
    else if c = '(' ∧ letters = saveWord then
      ⟨s.position.advance c, .nothing, ⟨.saveOpen, p⟩ :: s.found⟩
    else start ⟨s.position, .nothing, ⟨.word letters, p⟩ :: s.found⟩ c

/-- The tokens of a text that ends here. -/
def finish (s : Scanner) : Except SyntaxError (List (Placed Token)) :=
  match s.pending with
  | .stopped e => .error e
  | .nothing => .ok s.found.reverse
  | .dash p => .error ⟨.unexpectedChar '-', p⟩
  | .word p letters => .ok (⟨.word letters, p⟩ :: s.found).reverse

def run (s : Scanner) (cs : List Char) : Scanner := cs.foldl step s

@[simp] theorem run_nil (s : Scanner) : s.run [] = s := rfl

@[simp] theorem run_cons (s : Scanner) (c : Char) (cs : List Char) :
    s.run (c :: cs) = (s.step c).run cs := rfl

theorem run_append (s : Scanner) (cs ds : List Char) :
    s.run (cs ++ ds) = (s.run cs).run ds := List.foldl_append

end Scanner

/-- The tokens of a text, or the first fault in its characters. -/
def tokens (text : String) : Except SyntaxError (List (Placed Token)) :=
  (Scanner.initial.run text.toList).finish

end Remix.Recipe
