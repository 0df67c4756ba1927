/-!
# Positions in a text

A `Position` names a place in a text in three ways: by its byte offset, and by its line and column
as a person counts them. `Position.after` follows the characters of a text.
-/

namespace Remix.Text

/-- A place in a text. Lines and columns count from 1, and columns count characters. -/
structure Position where
  offset : Nat
  line : Nat
  column : Nat
  deriving DecidableEq, Repr, Inhabited

namespace Position

/-- The place before the first character of a text. -/
def start : Position := ⟨0, 1, 1⟩

/-- The place after a character that stands at `p`. -/
def advance (p : Position) (c : Char) : Position :=
  if c = '\n' then ⟨p.offset + c.utf8Size, p.line + 1, 1⟩
  else ⟨p.offset + c.utf8Size, p.line, p.column + 1⟩

/-- The place after a run of characters that starts at `p`. -/
def after (p : Position) (cs : List Char) : Position := cs.foldl advance p

/-- The place after the last character of a text. -/
def endOf (text : String) : Position := start.after text.toList

def describe (p : Position) : String := s!"line {p.line}, column {p.column}"

@[simp] theorem after_nil (p : Position) : p.after [] = p := rfl

@[simp] theorem after_cons (p : Position) (c : Char) (cs : List Char) :
    p.after (c :: cs) = (p.advance c).after cs := rfl

theorem after_append (p : Position) (cs ds : List Char) :
    p.after (cs ++ ds) = (p.after cs).after ds := List.foldl_append

theorem line_after (p : Position) (cs : List Char) :
    (p.after cs).line = p.line + cs.count '\n' := by
  induction cs generalizing p with
  | nil => rfl
  | cons c cs ih =>
    rw [after_cons, ih, List.count_cons, advance]
    by_cases hc : c = '\n'
    · simp only [hc, beq_self_eq_true, if_true]
      omega
    · simp [hc]

theorem column_pos_after {p : Position} (h : 0 < p.column) (cs : List Char) :
    0 < (p.after cs).column := by
  induction cs generalizing p with
  | nil => exact h
  | cons c cs ih =>
    apply ih
    unfold advance
    split
    · exact Nat.one_pos
    · exact Nat.succ_pos _

/-- The end of a text has all of its bytes before it. -/
theorem offset_endOf (text : String) : (endOf text).offset = text.utf8ByteSize := by
  induction text using String.push_induction with
  | empty => rfl
  | push text c ih =>
    have hadvance : (endOf (text.push c)) = (endOf text).advance c := by
      rw [endOf, String.toList_push, after_append]
      rfl
    rw [hadvance, String.utf8ByteSize_push, ← ih, advance]
    split <;> rfl

end Position

/-- A value read from a text, with the place where it stands. -/
structure Placed (α : Type) where
  value : α
  position : Position
  deriving DecidableEq, Repr

end Remix.Text
