import Remix.Proofs.Places
import Remix.Text.Excerpt

/-!
# The excerpt of a syntax error

Positions count the line feeds before them, and the lines of a text end at its line feeds. This
file connects the two: a position lies on the line with its number, unless it is the end of a text
that is empty or ends with a line feed, where no line follows. So the excerpt of a syntax error
points to the place where the error is, or there is none.
-/

namespace Remix

namespace Text

/-- Whole lines, the last one with its line feed. -/
def IsWhole (cs : List Char) : Prop := ∀ c ∈ cs.getLast?, c = '\n'

/-- What stands behind the characters of a line. -/
def EndsLine (cs : List Char) : Prop :=
  cs = [] ∨ (∃ ds, cs = '\n' :: ds) ∨ ∃ ds, cs = '\r' :: '\n' :: ds

/-- The characters `line` are the line of `cs` on which `p` lies, before one of them or behind the
last one. -/
def IsLineAt (cs : List Char) (p : Position) (line : List Char) : Prop :=
  ∃ whole behind, cs = whole ++ (line ++ behind) ∧ IsWhole whole ∧ '\n' ∉ line ∧
    EndsLine behind ∧ p.column ≤ line.length + 1 ∧
    p = Position.start.after (whole ++ line.take (p.column - 1))

namespace Position

lemma column_after (p : Position) {cs : List Char} (h : '\n' ∉ cs) :
    (p.after cs).column = p.column + cs.length := by
  induction cs generalizing p with
  | nil => rfl
  | cons c cs ih =>
    have hc : c ≠ '\n' := fun hc => h (hc ▸ List.mem_cons_self)
    have hcs : '\n' ∉ cs := fun hmem => h (List.mem_cons_of_mem _ hmem)
    rw [after_cons, ih _ hcs, List.length_cons, advance, if_neg hc]
    simp only
    omega

lemma column_after_whole {cs : List Char} (h : IsWhole cs) : (start.after cs).column = 1 := by
  induction cs using List.reverseRecOn with
  | nil => rfl
  | append_singleton cs c =>
    have hc : c = '\n' := h c (by simp)
    rw [after_append, hc]
    rfl

end Position

variable {cs : List Char}

lemma isWhole_nil : IsWhole [] := nofun

lemma IsWhole.tail {c : Char} (h : IsWhole (c :: cs)) : IsWhole cs := by
  intro d hd
  apply h
  cases cs with
  | nil => cases hd
  | cons c' cs => rwa [List.getLast?_cons_cons]

lemma exists_lastLine (cs : List Char) :
    ∃ whole line, cs = whole ++ line ∧ IsWhole whole ∧ '\n' ∉ line := by
  induction cs using List.reverseRecOn with
  | nil => exact ⟨[], [], rfl, isWhole_nil, by simp⟩
  | append_singleton cs c ih =>
    by_cases hc : c = '\n'
    · refine ⟨cs ++ [c], [], by simp, ?_, by simp⟩
      simpa [IsWhole] using hc
    · obtain ⟨whole, line, rfl, hwhole, hline⟩ := ih
      refine ⟨whole, line ++ [c], by simp, hwhole, ?_⟩
      simp [hline, Ne.symm hc]

lemma lines_eq_nil_iff : lines cs = [] ↔ cs = [] := by
  fun_cases lines cs <;> simp

/-- The first line of a text is what stands before the first end of a line. -/
lemma exists_head_lines (h : cs ≠ []) :
    ∃ line behind, (lines cs).head? = some line ∧ cs = line ++ behind ∧ '\n' ∉ line ∧
      EndsLine behind := by
  fun_induction lines cs with
  | case1 => exact absurd rfl h
  | case2 cs => exact ⟨[], '\n' :: cs, rfl, rfl, by simp, .inr (.inl ⟨cs, rfl⟩)⟩
  | case3 cs => exact ⟨[], '\r' :: '\n' :: cs, rfl, rfl, by simp, .inr (.inr ⟨cs, rfl⟩)⟩
  | case4 c cs hc hreturn hlines =>
    obtain rfl := lines_eq_nil_iff.mp hlines
    exact ⟨[c], [], rfl, rfl, by simpa using Ne.symm hc, .inl rfl⟩
  | case5 c cs hc hreturn line rest hlines ih =>
    have hcs : cs ≠ [] := by
      rintro rfl
      cases hlines
    obtain ⟨line', behind, hhead, rfl, hline, hbehind⟩ := ih hcs
    rw [hlines] at hhead
    cases hhead
    exact ⟨c :: line, behind, rfl, rfl, by simp [hline, Ne.symm hc], hbehind⟩

/-- Whole lines are separated from what follows. -/
lemma lines_append (h : IsWhole cs) (ds : List Char) : lines (cs ++ ds) = lines cs ++ lines ds := by
  fun_induction lines cs with
  | case1 => rfl
  | case2 cs ih =>
    change [] :: lines (cs ++ ds) = _
    rw [ih h.tail, List.cons_append]
  | case3 cs ih =>
    change [] :: lines (cs ++ ds) = _
    rw [ih h.tail.tail, List.cons_append]
  | case4 c cs hc hreturn hlines =>
    obtain rfl := lines_eq_nil_iff.mp hlines
    exact absurd (h c rfl) hc
  | case5 c cs hc hreturn line rest hlines ih =>
    have hreturn' : ∀ cs', c = '\r' → cs ++ ds = '\n' :: cs' → False := by
      intro cs' hc' hcs'
      cases cs with
      | nil => cases hlines
      | cons d cs =>
        cases hcs'
        exact hreturn cs hc' rfl
    rw [List.cons_append, lines.eq_4 c (cs ++ ds) hc hreturn', ih h.tail, hlines]
    rfl

lemma length_lines (h : IsWhole cs) : (lines cs).length = cs.count '\n' := by
  fun_induction lines cs with
  | case1 => rfl
  | case2 cs ih => simp [ih h.tail]
  | case3 cs ih => simp [ih h.tail.tail]
  | case4 c cs hc hreturn hlines =>
    obtain rfl := lines_eq_nil_iff.mp hlines
    exact absurd (h c rfl) hc
  | case5 c cs hc hreturn line rest hlines ih =>
    have hcount := ih h.tail
    rw [hlines] at hcount
    rw [List.count_cons_of_ne hc, ← hcount]
    rfl

/-- No line begins at the end of whole lines. -/
lemma getElem?_lines_of_whole (h : IsWhole cs) :
    (lines cs)[(Position.start.after cs).line - 1]? = none := by
  rw [Position.line_after, List.getElem?_eq_none_iff, length_lines h]
  simp only [Position.start]
  omega

/-- What ends a line begins where no line feed has been before. -/
lemma EndsLine.eq_nil_of_append {cut behind : List Char} (h : EndsLine (cut ++ behind))
    (hcut : '\n' ∉ cut) (hbehind : behind.head? ≠ some '\n') : cut = [] := by
  cases cut with
  | nil => rfl
  | cons c cut =>
    rcases h with h | ⟨ds, h⟩ | ⟨ds, h⟩
    · cases h
    · cases h
      exact absurd List.mem_cons_self hcut
    · cases cut with
      | nil =>
        cases h
        exact absurd rfl hbehind
      | cons d cut =>
        cases h
        exact absurd (List.mem_cons_of_mem _ List.mem_cons_self) hcut

/-- A place that is not that of a line feed divides the line with its number, unless it is the end
of whole lines. -/
lemma exists_divided_line {before behind : List Char} (hbehind : behind.head? ≠ some '\n')
    (h : ¬(behind = [] ∧ IsWhole before)) :
    ∃ whole line more rest, before = whole ++ line ∧ behind = more ++ rest ∧ IsWhole whole ∧
      '\n' ∉ line ++ more ∧ EndsLine rest ∧
      (Position.start.after before).column = line.length + 1 ∧
      (lines (before ++ behind))[(Position.start.after before).line - 1]? = some (line ++ more) := by
  obtain ⟨whole, line, rfl, hwhole, hline⟩ := exists_lastLine before
  have hne : line ++ behind ≠ [] := by
    intro hnil
    obtain ⟨rfl, rfl⟩ := List.append_eq_nil_iff.mp hnil
    exact h ⟨rfl, by simpa using hwhole⟩
  obtain ⟨first, rest, hhead, hsplit, hfirst, hrest⟩ := exists_head_lines hne
  -- The first line goes on at least up to the place, since no line ends before.
  obtain ⟨more, rfl, rfl⟩ : ∃ more, first = line ++ more ∧ behind = more ++ rest := by
    rcases List.append_eq_append_iff.mp hsplit with hmore | ⟨cut, rfl, rfl⟩
    · exact hmore
    · have hcut : '\n' ∉ cut := fun hmem => hline (List.mem_append_right _ hmem)
      obtain rfl := hrest.eq_nil_of_append hcut hbehind
      exact ⟨[], by simp, rfl⟩
  have hcolumn : (Position.start.after (whole ++ line)).column = line.length + 1 := by
    rw [Position.after_append, Position.column_after _ hline, Position.column_after_whole hwhole]
    omega
  have hcount : (Position.start.after (whole ++ line)).line - 1 = (lines whole).length := by
    rw [Position.line_after, List.count_append, List.count_eq_zero.mpr hline, length_lines hwhole]
    simp only [Position.start]
    omega
  refine ⟨whole, line, more, rest, rfl, rfl, hwhole, hfirst, hrest, hcolumn, ?_⟩
  rw [List.append_assoc, lines_append hwhole, hcount, List.getElem?_append_right (Nat.le_refl _),
    Nat.sub_self, ← List.head?_eq_getElem?, hhead]

/-- Any other place that is not that of a line feed lies on the line with its number. -/
lemma exists_lineAt {before behind : List Char} (hbehind : behind.head? ≠ some '\n')
    (h : ¬(behind = [] ∧ IsWhole before)) :
    ∃ line, (lines (before ++ behind))[(Position.start.after before).line - 1]? = some line ∧
      IsLineAt (before ++ behind) (Position.start.after before) line := by
  obtain ⟨whole, line, more, rest, rfl, rfl, hwhole, hfirst, hrest, hcolumn, hget⟩ :=
    exists_divided_line hbehind h
  refine ⟨line ++ more, hget, whole, rest, by simp, hwhole, hfirst, hrest, ?_, ?_⟩
  · rw [hcolumn, List.length_append]
    omega
  · rw [hcolumn, Nat.add_sub_cancel, List.take_left]

lemma excerpt_eq_none {text : String} {p : Position}
    (h : (lines text.toList)[p.line - 1]? = none) : excerpt text p = none := by
  unfold excerpt lineAt?
  split_ifs
  · rfl
  · rw [h]
    rfl

lemma excerpt_eq_some {text : String} {p : Position} {line : List Char} (hp : p.line ≠ 0)
    (h : (lines text.toList)[p.line - 1]? = some line) :
    excerpt text p = some (padLeft 4 (toString p.line) ++ " | " ++ String.ofList line ++
      "\n     | " ++ String.ofList (List.replicate (p.column - 1) ' ') ++ "^") := by
  have hline : lineAt? text p = some (String.ofList line) := by
    rw [lineAt?, if_neg hp, h]
    rfl
  rw [excerpt, hline]
  rfl

end Text

namespace Recipe

open Text (Position IsWhole IsLineAt lines excerpt padLeft)

/-- The places of syntax errors divide a text in front of no line feed. -/
lemma exists_split_of_parse {text : String} {e : SyntaxError} (h : parse text = .error e) :
    ∃ before behind, text.toList = before ++ behind ∧ e.position = Position.start.after before ∧
      behind.head? ≠ some '\n' ∧ (e.fault.IsAtEnd ↔ behind = []) := by
  rcases place_of_parse h with ⟨hfault, hposition⟩ | ⟨hfault, c, ⟨before, behind, htext, hp⟩, hc⟩
  · exact ⟨text.toList, [], by simp, hposition, nofun, by simp [hfault]⟩
  · have hfeed : c ≠ '\n' := by
      rintro rfl
      exact hc (by decide)
    exact ⟨before, c :: behind, htext, hp, by simpa using hfeed, by simp [hfault]⟩

/-- Whether there is an excerpt of a text for an error, and what it shows. -/
structure IsExcerpted (text : String) (e : SyntaxError) : Prop where
  /-- There is none at the end of a text that is empty or ends with a line feed. -/
  none_iff : excerpt text e.position = none ↔ e.fault.IsAtEnd ∧ IsWhole text.toList
  /-- Otherwise it shows the line of the error, with the caret under its column. -/
  shown : ¬(e.fault.IsAtEnd ∧ IsWhole text.toList) → ∃ line,
    (lines text.toList)[e.position.line - 1]? = some line ∧
    IsLineAt text.toList e.position line ∧
    excerpt text e.position = some (padLeft 4 (toString e.position.line) ++ " | " ++
      String.ofList line ++ "\n     | " ++
      String.ofList (List.replicate (e.position.column - 1) ' ') ++ "^")

/-- Every syntax error is shown on its line, but one at the end of a text that is empty or ends with
a line feed. -/
theorem excerpt_of_parse (text : String) (e : SyntaxError) (h : parse text = .error e) :
    IsExcerpted text e := by
  obtain ⟨before, behind, htext, hposition, hbehind, hend⟩ := exists_split_of_parse h
  have hshown : ¬(e.fault.IsAtEnd ∧ IsWhole text.toList) → ∃ line,
      (lines text.toList)[e.position.line - 1]? = some line ∧
      IsLineAt text.toList e.position line := by
    intro hnot
    rw [htext, hposition]
    apply Text.exists_lineAt hbehind
    rintro ⟨rfl, hwhole⟩
    exact hnot ⟨hend.mpr rfl, by simpa [htext] using hwhole⟩
  have hline : e.position.line ≠ 0 := by
    rw [hposition, Position.line_after]
    simp only [Position.start]
    omega
  refine ⟨⟨fun hnone => ?_, ?_⟩, fun hnot => ?_⟩
  · by_contra hnot
    obtain ⟨line, hget, -⟩ := hshown hnot
    rw [Text.excerpt_eq_some hline hget] at hnone
    cases hnone
  · rintro ⟨hfault, hwhole⟩
    apply Text.excerpt_eq_none
    obtain rfl := hend.mp hfault
    rw [List.append_nil] at htext
    rw [hposition, ← htext]
    exact Text.getElem?_lines_of_whole hwhole
  · obtain ⟨line, hget, hat⟩ := hshown hnot
    exact ⟨line, hget, hat, Text.excerpt_eq_some hline hget⟩

/-- An empty step on the second line, after a line that ends with a carriage return, too. -/
theorem excerpt_of_parse_emptyStep :
    let text := "vocals -> save(v);\r\nbass -> -> x;"
    let e : SyntaxError := ⟨.emptyStep, ⟨28, 2, 9⟩⟩
    parse text = .error e ∧
    IsExcerpted text e := by
  have h : parse "vocals -> save(v);\r\nbass -> -> x;" = .error ⟨.emptyStep, ⟨28, 2, 9⟩⟩ := by
    decide
  exact ⟨h, excerpt_of_parse _ _ h⟩

/-- A statement without a semicolon at the end of a text is shown or not, as the text ends without
a line feed or with one. -/
theorem excerpt_missing_afterLineFeed :
    parse "vocals -> x" = .error ⟨.unexpectedEnd "';'", ⟨11, 1, 12⟩⟩ ∧
    excerpt "vocals -> x" ⟨11, 1, 12⟩ = some "   1 | vocals -> x\n     |            ^" ∧
    parse "vocals -> x\n" = .error ⟨.unexpectedEnd "';'", ⟨12, 2, 1⟩⟩ ∧
    excerpt "vocals -> x\n" ⟨12, 2, 1⟩ = none := by
  exact ⟨by decide, by decide, by decide, by decide⟩

end Recipe

end Remix
