import Remix.Json.Number

/-!
# Tokens of JSON

The scanner takes the characters of a text one at a time and holds what it has seen of a token that
is not complete. It knows the words, numbers, strings and marks of JSON; how they may follow each
other is not its concern.
-/

namespace Remix.Json

/-- A value without parts. -/
inductive Scalar where
  | null
  | truth (b : Bool)
  | number (n : Number)
  | text (s : String)
  deriving DecidableEq

inductive Token where
  | mark (c : Char)
  | scalar (value : Scalar)
  deriving DecidableEq

/-- What the scanner has seen of a token that is not complete. Characters are kept last one
first. -/
inductive Pending where
  | nothing
  | word (letters : List Char)
  | text (letters : List Char)
  | escape (letters : List Char)
  /-- An escape by the code of a character, with the digits that are missing. -/
  | code (letters : List Char) (missing value : Nat)
  deriving DecidableEq, Repr

/-- The scanner between two characters. The newest token comes first. -/
structure Scanner where
  pending : Pending
  found : List Token
  deriving DecidableEq

def isBlank (c : Char) : Bool := c ∈ [' ', '\t', '\n', '\r']

def isMark (c : Char) : Bool := c ∈ ['\x7b', '\x7d', '[', ']', ',', ':']

/-- Whether a character may stand in a number or a word such as `true`. -/
def isWordChar (c : Char) : Bool := c.isAlphanum || c ∈ ['+', '-', '.']

/-- The value that a word or a number stands for. -/
def Scalar.ofWord? (letters : List Char) : Option Scalar :=
  if letters = "null".toList then some .null
  else if letters = "true".toList then some (.truth true)
  else if letters = "false".toList then some (.truth false)
  else (Numeral.ofChars? letters).bind Numeral.value |>.map .number

/-- The character that a letter after a backslash stands for. -/
def escaped? : Char → Option Char
  | '"' => some '"'
  | '\\' => some '\\'
  | '/' => some '/'
  | 'b' => some '\x08'
  | 'f' => some '\x0c'
  | 'n' => some '\n'
  | 'r' => some '\r'
  | 't' => some '\t'
  | _ => none

def hexValue? (c : Char) : Option Nat :=
  if c.isDigit then some (c.toNat - '0'.toNat)
  else if 'a' ≤ c ∧ c ≤ 'f' then some (c.toNat - 'a'.toNat + 10)
  else if 'A' ≤ c ∧ c ≤ 'F' then some (c.toNat - 'A'.toNat + 10)
  else none

namespace Scanner

def initial : Scanner := ⟨.nothing, []⟩

/-- Takes a character that continues no token. -/
def start (found : List Token) (c : Char) : Option Scanner :=
  if isBlank c then some ⟨.nothing, found⟩
  else if isMark c then some ⟨.nothing, .mark c :: found⟩
  else if c = '"' then some ⟨.text [], found⟩
  else if isWordChar c then some ⟨.word [c], found⟩
  else none

/-- Takes one character. A code that is no character by itself is not accepted. -/
def step (s : Scanner) (c : Char) : Option Scanner :=
  match s.pending with
  | .nothing => start s.found c
  | .word letters =>
    if isWordChar c then some ⟨.word (c :: letters), s.found⟩
    else (Scalar.ofWord? letters.reverse).bind fun v => start (.scalar v :: s.found) c
  | .text letters =>
    if c = '"' then some ⟨.nothing, .scalar (.text (String.ofList letters.reverse)) :: s.found⟩
    else if c = '\\' then some ⟨.escape letters, s.found⟩
    else if c < ' ' then none
    else some ⟨.text (c :: letters), s.found⟩
  | .escape letters =>
    if c = 'u' then some ⟨.code letters 4 0, s.found⟩
    else (escaped? c).map fun e => ⟨.text (e :: letters), s.found⟩
  | .code letters missing value =>
    (hexValue? c).bind fun d =>
      let value := 16 * value + d
      if 1 < missing then some ⟨.code letters (missing - 1) value, s.found⟩
      else if value.isValidChar then some ⟨.text (Char.ofNat value :: letters), s.found⟩
      else none

/-- The tokens of a text that ends here. -/
def finish (s : Scanner) : Option (List Token) :=
  match s.pending with
  | .nothing => some s.found.reverse
  | .word letters => (Scalar.ofWord? letters.reverse).map fun v => (.scalar v :: s.found).reverse
  | _ => none

end Scanner

/-- The tokens of a text, if every character belongs to one or separates them. -/
def tokens (text : String) : Option (List Token) :=
  (text.toList.foldlM Scanner.step Scanner.initial).bind Scanner.finish

end Remix.Json
