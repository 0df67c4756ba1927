import Remix.Recipe.Basic
import Remix.Recipe.Scanner

/-!
# From tokens to recipes

A statement is written

    source -> action -> ... -> sink;

where the sink is a name, `save(name)`, or the word `drop`. The reader takes the tokens of a text
one at a time. Between two tokens it holds the clauses read so far and the `Stage` that it has
reached in the clause at hand. The first fault stops it for good. `parse` runs it over a whole text.
-/

namespace Remix.Recipe

open Text (Placed Position)

/-- A complete statement of a text. One that ends in `drop` leaves nothing behind. -/
inductive Clause where
  | kept (statement : Placed Statement)
  | dropped
  deriving DecidableEq, Repr

/-- The beginning of a statement: its source, the place of the source, and its actions so far, the
last one first. -/
structure Opening where
  source : Source
  position : Position
  actions : List Action
  deriving DecidableEq, Repr

namespace Opening

def close (o : Opening) (sink : Sink) : Clause :=
  .kept ⟨⟨o.source, o.actions.reverse, sink⟩, o.position⟩

end Opening

/-- How far a statement has been read. -/
inductive Stage where
  /-- Nothing of it. -/
  | source
  /-- Its source; an arrow has to follow. -/
  | firstArrow (opening : Opening)
  /-- An arrow; a step has to follow. -/
  | step (opening : Opening)
  /-- A word, which is an action if an arrow follows and the end of the chain if not. -/
  | word (opening : Opening) (letters : String) (position : Position)
  /-- The words `save(` at a place; a name has to follow. -/
  | saveName (opening : Opening) (position : Position)
  /-- The name of a saved sink; a parenthesis has to follow. -/
  | saveClose (opening : Opening) (name : String) (position : Position)
  /-- A saved sink; a semicolon has to follow. -/
  | terminator (opening : Opening) (sink : Sink) (position : Position)
  | stopped (error : SyntaxError)
  deriving DecidableEq, Repr

/-- The reader between two tokens. The newest clause comes first. -/
structure Reader where
  clauses : List Clause
  stage : Stage
  deriving DecidableEq, Repr

/-- The source that a word names, which is a stem whenever the word is the name of one. -/
def sourceNamed (word : String) : Source :=
  match Stem.ofName? word with
  | some s => .stem s
  | none => .sink word

/-- What closes a statement that ends in a bare word. -/
def Opening.closeWith (o : Opening) (word : String) : Clause :=
  if word = dropWord then .dropped else o.close ⟨word, false⟩

namespace Reader

def initial : Reader := ⟨[], .source⟩

def goto (r : Reader) (stage : Stage) : Reader := ⟨r.clauses, stage⟩

def stop (r : Reader) (fault : SyntaxFault) (p : Position) : Reader := r.goto (.stopped ⟨fault, p⟩)

def complete (r : Reader) (clause : Clause) : Reader := ⟨clause :: r.clauses, .source⟩

def unexpected (r : Reader) (t : Placed Token) (expected : String) : Reader :=
  r.stop (.unexpectedToken t.value.text expected) t.position

/-- Takes one token. -/
def step (r : Reader) (t : Placed Token) : Reader :=
  match r.stage with
  | .stopped _ => r
  | .source =>
    match t.value with
    | .word w =>
      match Action.ofKeyword? w with
      | some a => r.stop (.actionAsSource a) t.position
      | none => r.goto (.firstArrow ⟨sourceNamed w, t.position, []⟩)
    | _ => r.unexpected t "a source name"
  | .firstArrow o =>
    match t.value with
    | .arrow => r.goto (.step o)
    | .semicolon => r.stop .missingSink t.position
    | _ => r.unexpected t "'->'"
  | .step o =>
    match t.value with
    | .arrow | .semicolon => r.stop .emptyStep t.position
    | .saveOpen => r.goto (.saveName o t.position)
    | .word w => r.goto (.word o w t.position)
    | .closeParen => r.unexpected t "an action or sink"
  | .word o w p =>
    match Action.ofKeyword? w, t.value with
    | some a, .arrow => r.goto (.step { o with actions := a :: o.actions })
    | none, .arrow => r.stop (.sinkMidChain w) p
    | some a, _ => r.stop (.actionAsSink a) p
    | none, .semicolon => r.complete (o.closeWith w)
    | none, _ => r.unexpected t "';'"
  | .saveName o p =>
    match t.value with
    | .word w =>
      if w = dropWord then r.unexpected t "a sink name" else r.goto (.saveClose o w p)
    | .closeParen => r.stop .emptySaveName p
    | _ => r.unexpected t "a sink name"
  | .saveClose o name p =>
    match t.value with
    | .closeParen => r.goto (.terminator o ⟨name, true⟩ p)
    | _ => r.unexpected t "')'"
  | .terminator o sink p =>
    match t.value with
    | .semicolon => r.complete (o.close sink)
    | .arrow => r.stop (.sinkMidChain sink.text) p
    | _ => r.unexpected t "';'"

/-- The fault of a text that ends here at `p`, if it is one to end here. -/
def faultAtEnd (r : Reader) (p : Position) : Option SyntaxError :=
  match r.stage with
  | .stopped e => some e
  | .source => if r.clauses.isEmpty then some ⟨.emptyRecipe, p⟩ else none
  | .firstArrow _ => some ⟨.unexpectedEnd "'->'", p⟩
  | .step _ => some ⟨.unexpectedEnd "an action or sink", p⟩
  | .word _ w q =>
    match Action.ofKeyword? w with
    | some a => some ⟨.actionAsSink a, q⟩
    | none => some ⟨.unexpectedEnd "';'", p⟩
  | .saveName _ _ => some ⟨.unexpectedEnd "a sink name", p⟩
  | .saveClose _ _ _ => some ⟨.unexpectedEnd "')'", p⟩
  | .terminator _ _ _ => some ⟨.unexpectedEnd "';'", p⟩

def run (r : Reader) (ts : List (Placed Token)) : Reader := ts.foldl step r

@[simp] theorem run_nil (r : Reader) : r.run [] = r := rfl

@[simp] theorem run_cons (r : Reader) (t : Placed Token) (ts : List (Placed Token)) :
    r.run (t :: ts) = (r.step t).run ts := rfl

theorem run_append (r : Reader) (ts us : List (Placed Token)) :
    r.run (ts ++ us) = (r.run ts).run us := List.foldl_append

end Reader

/-- What was read of a text: the clauses before the first fault, and that fault if there is one. -/
structure Reading where
  clauses : List Clause
  fault : Option SyntaxError
  deriving DecidableEq, Repr

/-- Reads the tokens of a text that ends at `p`. -/
def readTokens (ts : List (Placed Token)) (p : Position) : Reading :=
  let r := Reader.initial.run ts
  ⟨r.clauses.reverse, r.faultAtEnd p⟩

/-- Reads a text. Nothing is read of a text whose characters do not form tokens. -/
def read (text : String) : Reading :=
  match tokens text with
  | .error e => ⟨[], some e⟩
  | .ok ts => readTokens ts (.endOf text)

namespace Clause

def statement? : Clause → Option (Placed Statement)
  | kept s => some s
  | dropped => none

end Clause

namespace Reading

/-- The statements of a reading without a fault. -/
def statements (r : Reading) : Except SyntaxError (List (Placed Statement)) :=
  match r.fault with
  | some e => .error e
  | none => .ok (r.clauses.filterMap Clause.statement?)

end Reading

/-- The statements of a text with their places, or the first fault of the text. -/
def parse (text : String) : Except SyntaxError (List (Placed Statement)) := (read text).statements

/-- The recipe that a text holds. -/
def ofText (text : String) : Except SyntaxError Recipe :=
  (parse text).map fun statements => ⟨statements.map (·.value)⟩

end Remix.Recipe
