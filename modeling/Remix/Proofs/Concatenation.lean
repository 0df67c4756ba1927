import Remix.Proofs.Places

/-!
# Recipes behind one another

A recipe may be followed by any text: what is read of the text is what would be read of it alone,
with the places moved behind the recipe. The scanner and the reader do not look back, so they take
the second text as they would from the beginning, on top of what they have found already. `carry`
is what relates the two runs.
-/

namespace Remix

open Text (Placed Position isBlank)

namespace Text

/-- The place in `text ++ more` of what stands at `p` in `more`. Only on the first line of `more`
does the end of `text` move the column. -/
def Position.past (text : String) (p : Position) : Position :=
  ⟨p.offset + text.utf8ByteSize, p.line + ((endOf text).line - 1),
    if p.line = 1 then p.column + ((endOf text).column - 1) else p.column⟩

def Placed.relocate {α : Type} (f : Position → Position) (x : Placed α) : Placed α :=
  ⟨x.value, f x.position⟩

namespace Position

lemma past_start (text : String) : start.past text = endOf text := by
  have hoffset : (endOf text).offset = text.utf8ByteSize := offset_endOf text
  have hline : (endOf text).line = 1 + text.toList.count '\n' := line_after start _
  have hcolumn : 0 < (endOf text).column := column_pos_after Nat.one_pos _
  have hline' : 1 + ((endOf text).line - 1) = (endOf text).line := by omega
  have hcolumn' : 1 + ((endOf text).column - 1) = (endOf text).column := by omega
  simp only [past, start, if_true, Nat.zero_add, hline', hcolumn', ← hoffset]

lemma line_pos_advance {p : Position} (hp : 0 < p.line) (c : Char) : 0 < (p.advance c).line := by
  unfold advance
  split
  · exact Nat.succ_pos _
  · exact hp

lemma past_advance (text : String) {p : Position} (hp : 0 < p.line) (c : Char) :
    (p.advance c).past text = (p.past text).advance c := by
  unfold advance
  by_cases hc : c = '\n'
  -- Behind a line feed the column is not moved any more, as no line but the first has number one.
  · have hne : p.line + 1 ≠ 1 := by omega
    simp only [hc, if_true, past, if_neg hne]
    congr 1 <;> omega
  · simp only [hc, if_false, past]
    congr 1
    · omega
    · split <;> omega

lemma past_after (text : String) {p : Position} (hp : 0 < p.line) (cs : List Char) :
    (p.after cs).past text = (p.past text).after cs := by
  induction cs generalizing p with
  | nil => rfl
  | cons c cs ih =>
    rw [after_cons, after_cons, ih (line_pos_advance hp c), past_advance text hp]

lemma endOf_append (a b : String) : endOf (a ++ b) = (endOf b).past a := by
  have hstart : 0 < start.line := Nat.one_pos
  have hb : (endOf b).past a = (endOf a).after b.toList := by
    rw [← past_start a]
    exact past_after a hstart b.toList
  rw [hb, endOf, String.toList_append, after_append]
  rfl

end Position

end Text

namespace Recipe

variable (f : Position → Position)

def SyntaxError.relocate (e : SyntaxError) : SyntaxError := ⟨e.fault, f e.position⟩

def Pending.relocate : Pending → Pending
  | .nothing => .nothing
  | .dash p => .dash (f p)
  | .word p letters => .word (f p) letters
  | .stopped e => .stopped (e.relocate f)

def Opening.relocate (o : Opening) : Opening := ⟨o.source, f o.position, o.actions⟩

def Clause.relocate : Clause → Clause
  | .kept s => .kept (s.relocate f)
  | .dropped => .dropped

def Stage.relocate : Stage → Stage
  | .source => .source
  | .firstArrow o => .firstArrow (o.relocate f)
  | .step o => .step (o.relocate f)
  | .word o w p => .word (o.relocate f) w (f p)
  | .saveName o p => .saveName (o.relocate f) (f p)
  | .saveClose o name p => .saveClose (o.relocate f) name (f p)
  | .terminator o sink p => .terminator (o.relocate f) sink (f p)
  | .stopped e => .stopped (e.relocate f)

/-- The last token is a semicolon. -/
def EndsStatement (ts : List (Placed Token)) : Prop := ∃ us p, ts = us ++ [⟨.semicolon, p⟩]

namespace Scanner

variable (before : List (Placed Token)) {s : Scanner} {c : Char}

/-- The scanner on top of the tokens `before`, with its places moved. -/
def carry (s : Scanner) : Scanner :=
  ⟨f s.position, s.pending.relocate f, s.found.map (·.relocate f) ++ before⟩

lemma start_carry (hf : f (s.position.advance c) = (f s.position).advance c) :
    (s.carry f before).start c = (s.start c).carry f before := by
  unfold start
  split_ifs <;> simp [carry, Pending.relocate, Placed.relocate, SyntaxError.relocate, hf]

lemma step_carry (hf : f (s.position.advance c) = (f s.position).advance c) :
    (s.carry f before).step c = (s.step c).carry f before := by
  obtain ⟨p, pending, found⟩ := s
  cases pending with
  | nothing => exact start_carry f before hf
  | stopped e => rfl
  | dash q =>
    simp only [carry, Pending.relocate, step]
    split_ifs
    · simp [Placed.relocate, hf]
    · rfl
  | word q letters =>
    simp only [carry, Pending.relocate, step]
    split_ifs
    · simp [hf]
    · simp [Placed.relocate, hf]
    · exact start_carry (s := ⟨p, .nothing, ⟨.word letters, q⟩ :: found⟩) f before hf

lemma line_pos_start (hs : 0 < s.position.line) (c : Char) :
    0 < (s.start c).position.line := by
  unfold start
  split_ifs
  iterate 5 exact Position.line_pos_advance hs c
  exact hs

lemma line_pos_step (hs : 0 < s.position.line) (c : Char) : 0 < (s.step c).position.line := by
  obtain ⟨p, pending, found⟩ := s
  have hnext := Position.line_pos_advance hs c
  cases pending with
  | nothing => exact line_pos_start hs c
  | stopped e => exact hs
  | dash q =>
    simp only [step]
    split_ifs
    · exact hnext
    · exact hs
  | word q letters =>
    simp only [step]
    split_ifs
    · exact hnext
    · exact hnext
    · exact line_pos_start (s := ⟨p, .nothing, ⟨.word letters, q⟩ :: found⟩) hs c

/-- A move of the places that goes with every character goes with the scanner. -/
lemma run_carry (hf : ∀ p c, 0 < p.line → f (p.advance c) = (f p).advance c)
    (hs : 0 < s.position.line) (cs : List Char) :
    (s.carry f before).run cs = (s.run cs).carry f before := by
  induction cs generalizing s with
  | nil => rfl
  | cons c cs ih =>
    have hc := hf s.position c hs
    rw [run_cons, run_cons, step_carry f before hc, ih (line_pos_step hs c)]

lemma finish_carry (s : Scanner) : (s.carry f before).finish =
    match s.finish with
    | .ok ts => .ok (before.reverse ++ ts.map (·.relocate f))
    | .error e => .error (e.relocate f) := by
  obtain ⟨p, pending, found⟩ := s
  cases pending <;>
    simp [carry, finish, Pending.relocate, Placed.relocate, SyntaxError.relocate]

/-- Behind a text that ends with a semicolon the scanner is between two tokens. -/
lemma run_of_semicolon {text : String} {ts : List (Placed Token)} (h : tokens text = .ok ts)
    (hlast : EndsStatement ts) :
    initial.run text.toList = ⟨.endOf text, .nothing, ts.reverse⟩ := by
  obtain ⟨us, p, rfl⟩ := hlast
  have hposition := position_of_finish h
  unfold tokens at h
  generalize initial.run text.toList = s at h hposition
  obtain ⟨q, pending, found⟩ := s
  cases pending with
  | stopped e => cases h
  | dash q' => cases h
  | word q' letters =>
    have hlast := congrArg List.reverse (Except.ok.inj h)
    simp at hlast
  | nothing =>
    have hfound := congrArg List.reverse (Except.ok.inj h)
    rw [List.reverse_reverse] at hfound
    obtain rfl : q = Position.endOf text := hposition
    obtain rfl : found = _ := hfound
    rfl

end Scanner

namespace Reader

variable (before : List Clause)

/-- The reader on top of the clauses `before`, with its places moved. -/
def carry (r : Reader) : Reader :=
  ⟨r.clauses.map (·.relocate f) ++ before, r.stage.relocate f⟩

lemma closeWith_relocate (o : Opening) (w : String) :
    (o.relocate f).closeWith w = (o.closeWith w).relocate f := by
  unfold Opening.closeWith
  split_ifs <;> rfl

lemma step_carry (r : Reader) (t : Placed Token) :
    (r.carry f before).step (t.relocate f) = (r.step t).carry f before := by
  obtain ⟨clauses, stage⟩ := r
  obtain ⟨kind, p⟩ := t
  cases stage with
  | source =>
    cases kind with
    | word w =>
      simp only [carry, Stage.relocate, Placed.relocate, step]
      cases Action.ofKeyword? w <;> rfl
    | _ => rfl
  | word o w q =>
    simp only [carry, Stage.relocate, Placed.relocate, step]
    cases Action.ofKeyword? w with
    | some a => cases kind <;> rfl
    | none =>
      cases kind with
      | semicolon => simp [complete, closeWith_relocate]
      | _ => rfl
  | saveName o q =>
    cases kind with
    | word w =>
      simp only [carry, Stage.relocate, Placed.relocate, step]
      split_ifs <;> rfl
    | _ => rfl
  | _ => cases kind <;> rfl

lemma run_carry (r : Reader) (ts : List (Placed Token)) :
    (r.carry f before).run (ts.map (·.relocate f)) = (r.run ts).carry f before := by
  induction ts generalizing r with
  | nil => rfl
  | cons t ts ih => rw [List.map_cons, run_cons, run_cons, step_carry, ih]

/-- A reader that has begun finds the same fault at the end, wherever it began. -/
lemma faultAtEnd_carry {r : Reader} (hr : r ≠ initial) (p : Position) :
    (r.carry f before).faultAtEnd (f p) = (r.faultAtEnd p).map (·.relocate f) := by
  obtain ⟨clauses, stage⟩ := r
  cases stage with
  | source =>
    cases clauses with
    -- Alone it is an empty recipe, behind another one it is nothing more to read.
    | nil => exact absurd rfl hr
    | cons c clauses => rfl
  | word o w q =>
    simp only [carry, Stage.relocate, faultAtEnd]
    cases Action.ofKeyword? w <;> rfl
  | _ => rfl

lemma run_ne_initial {ts : List (Placed Token)} (h : ts ≠ []) : initial.run ts ≠ initial := by
  intro hrun
  rcases explains_initial.run ts with ⟨e, he⟩ | ⟨parts, last, hts, hparts, hlast⟩
  · rw [hrun] at he
    cases he
  · rw [hrun] at hparts hlast
    cases hparts
    cases hlast
    exact h hts

end Reader

lemma IsClause.endsStatement {part : List (Placed Token)} {c : Clause} (h : IsClause part c) :
    EndsStatement part := by
  cases h with
  | intro => exact ⟨_, _, rfl⟩

lemma endsStatement_of_clauses {parts : List (List (Placed Token))} {clauses : List Clause}
    (h : List.Forall₂ IsClause parts clauses) (hne : parts ≠ []) :
    EndsStatement parts.flatten := by
  induction h with
  | nil => exact absurd rfl hne
  | @cons part c parts clauses hc _ ih =>
    by_cases hparts : parts = []
    · simpa [hparts] using hc.endsStatement
    · obtain ⟨ts, p, hflatten⟩ := ih hparts
      exact ⟨part ++ ts, p, by simp [hflatten]⟩

lemma Laid.isBlank_of_nil {p : Position} {cs : List Char} (h : Laid p cs []) :
    ∀ c ∈ cs, isBlank c := by
  generalize hts : ([] : List (Placed Token)) = ts at h
  induction h with
  | nil => nofun
  | blank hc _ ih => exact List.forall_mem_cons.mpr ⟨hc, ih hts⟩
  | token => cases hts

/-- The tokens of a text behind a recipe are its own, with the places moved. -/
lemma tokens_append {a : String} {ts : List (Placed Token)} (ha : tokens a = .ok ts)
    (hlast : EndsStatement ts) (b : String) : tokens (a ++ b) =
      match tokens b with
      | .ok us => .ok (ts ++ us.map (·.relocate (Position.past a)))
      | .error e => .error (e.relocate (Position.past a)) := by
  have hbegin : Scanner.initial.run a.toList =
      Scanner.initial.carry (Position.past a) ts.reverse := by
    rw [Scanner.run_of_semicolon ha hlast, Scanner.carry]
    simp only [Scanner.initial, Position.past_start, Pending.relocate, List.map_nil,
      List.nil_append]
  have hline : 0 < Scanner.initial.position.line := Nat.one_pos
  have hmoves : ∀ (q : Position) (c : Char), 0 < q.line →
      (q.advance c).past a = (q.past a).advance c :=
    fun q c hq => Position.past_advance a hq c
  rw [tokens, String.toList_append, Scanner.run_append, hbegin,
    Scanner.run_carry _ _ hmoves hline, Scanner.finish_carry, List.reverse_reverse]
  rfl

/-- What is read of tokens behind a recipe. -/
lemma readTokens_append {parts : List (List (Placed Token))} {clauses : List Clause}
    (h : List.Forall₂ IsClause parts clauses) {us : List (Placed Token)} (hus : us ≠ [])
    (f : Position → Position) (p : Position) :
    readTokens (parts.flatten ++ us.map (·.relocate f)) (f p) =
      ⟨clauses ++ (readTokens us p).clauses.map (·.relocate f),
        (readTokens us p).fault.map (·.relocate f)⟩ := by
  have hbegin : Reader.initial.run parts.flatten = Reader.initial.carry f clauses.reverse := by
    rw [Reader.initial, Reader.run_clauses h, List.append_nil]
    rfl
  have hrun : Reader.initial.run (parts.flatten ++ us.map (·.relocate f)) =
      (Reader.initial.run us).carry f clauses.reverse := by
    rw [Reader.run_append, hbegin, Reader.run_carry]
  have hfault := Reader.faultAtEnd_carry f clauses.reverse (Reader.run_ne_initial hus) p
  simp only [readTokens, hrun, hfault]
  simp [Reader.carry]

lemma statements_relocate (f : Position → Position) (clauses : List Clause) :
    (clauses.map (·.relocate f)).filterMap Clause.statement? =
      (clauses.filterMap Clause.statement?).map (·.relocate f) := by
  rw [List.filterMap_map, List.map_filterMap]
  congr 1
  funext c
  cases c <;> rfl

/-- Recipes can be put behind one another. A text behind a recipe adds its own statements or has its
own fault, at the same places as alone but for the length of the recipe before. -/
theorem parse_append (a b : String) (statements : List (Placed Statement))
    (ha : parse a = .ok statements) (hb : ∃ c ∈ b.toList, ¬isBlank c) :
    parse (a ++ b) =
      match parse b with
      | .ok more => .ok (statements ++ more.map fun s => ⟨s.value, s.position.past a⟩)
      | .error e => .error ⟨e.fault, e.position.past a⟩ := by
  obtain ⟨clauses, hread, rfl⟩ := parse_eq_ok_iff_read.mp ha
  obtain ⟨ts, htokens, parts, hne, rfl, hparts⟩ := read_eq_iff.mp hread
  have happend := tokens_append htokens (endsStatement_of_clauses hparts hne) b
  unfold parse read
  rw [happend]
  cases hmore : tokens b with
  | error e => rfl
  | ok us =>
    -- A text without tokens is blank, and behind a recipe it would be no empty recipe.
    have hus : us ≠ [] := by
      rintro rfl
      obtain ⟨c, hc, hblank⟩ := hb
      exact hblank ((tokens_eq_ok_iff.mp hmore).isBlank_of_nil c hc)
    simp only [Position.endOf_append]
    rw [readTokens_append hparts hus]
    generalize readTokens us (Position.endOf b) = reading
    obtain ⟨clauses', fault⟩ := reading
    cases fault with
    | some e => rfl
    | none =>
      simp only [Reading.statements, Option.map_none, List.filterMap_append, statements_relocate]
      rfl

/-- Behind a line and two blanks, an empty step is found on the second line, two columns further. -/
theorem parse_append_emptyStep :
    let a := "bass -> drop; vocals -> save(v);\n  "
    let b := "v -> -> w;\n"
    parse a = .ok [⟨⟨.stem .vocals, [], ⟨"v", true⟩⟩, ⟨14, 1, 15⟩⟩] ∧
    (∃ c ∈ b.toList, ¬isBlank c) ∧
    parse b = .error ⟨.emptyStep, ⟨5, 1, 6⟩⟩ ∧
    parse (a ++ b) = .error ⟨.emptyStep, ⟨40, 2, 8⟩⟩ := by
  have ha : parse "bass -> drop; vocals -> save(v);\n  " =
      .ok [⟨⟨.stem .vocals, [], ⟨"v", true⟩⟩, ⟨14, 1, 15⟩⟩] := by decide
  have hb : ∃ c ∈ "v -> -> w;\n".toList, ¬isBlank c := ⟨'v', by decide, by decide⟩
  have hfault : parse "v -> -> w;\n" = .error ⟨.emptyStep, ⟨5, 1, 6⟩⟩ := by decide
  refine ⟨ha, hb, hfault, ?_⟩
  rw [parse_append _ _ _ ha hb, hfault]
  decide

end Recipe

end Remix
