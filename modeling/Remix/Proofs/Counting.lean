import Mathlib.Tactic.Common
import Remix.Plan.Build

/-!
# Counting readers

Planning counts readers while it goes: a statement adds one to the count of an entry that is in the
plan already. `ofResolved` counts them in the end, over all statements. Both give the same plan,
since a statement reads what is before it, so that what is added later has no readers yet.
-/

namespace Remix

lemma getElem?_concat {α : Type} (xs : List α) (x : α) (i : Nat) :
    (xs ++ [x])[i]? = if i = xs.length then some x else xs[i]? := by
  rcases Nat.lt_trichotomy i xs.length with hi | rfl | hi
  · rw [List.getElem?_append_left hi, if_neg (Nat.ne_of_lt hi)]
  · rw [if_pos rfl, List.getElem?_concat_length]
  · rw [if_neg (Nat.ne_of_gt hi), List.getElem?_eq_none (Nat.le_of_lt hi),
      List.getElem?_eq_none (by simp; omega)]

lemma length_eq_of_map_eq {α β γ : Type} {f : α → γ} {g : β → γ} {xs : List α} {ys : List β}
    (h : xs.map f = ys.map g) : xs.length = ys.length := by
  have hlength := congrArg List.length h
  rwa [List.length_map, List.length_map] at hlength

namespace Plan

/-- The statements of a recipe from statement `i` on, with their origins and no readers yet. -/
def resolve (scope : Scope) (i : Nat) :
    List Statement → Traced Event NamingError (List PlannedStatement)
  | [] => pure []
  | s :: rest => do
    let origin ← Traced.ofExcept (scope.find i s.source)
    let scope ← Traced.ofExcept (scope.define i s.source s.sink.name)
    Traced.tell (.planned i origin s.sink)
    let planned ← resolve scope (i + 1) rest
    return ⟨i, origin, s.actions, s.sink, 0⟩ :: planned

/-- The number of statements that read the sink of statement `i`. -/
def sinkReaders (statements : List PlannedStatement) (i : Nat) : Nat :=
  statements.countP (·.origin.readsSink i)

/-- The number of statements that read a stem, if any do. -/
def stemReaders? (statements : List PlannedStatement) (s : Stem) : Option Nat :=
  let n := statements.countP (·.origin = .stem s)
  if n = 0 then none else some n

/-- The plan of statements whose readers are yet to be counted. -/
def ofResolved (statements : List PlannedStatement) : Plan :=
  ⟨statements.map fun s => { s with readers := sinkReaders statements s.index },
   .ofFn (stemReaders? statements)⟩

lemma sinkReaders_concat (statements : List PlannedStatement) (q : PlannedStatement) (i : Nat) :
    sinkReaders (statements ++ [q]) i =
      sinkReaders statements i + if q.origin.readsSink i then 1 else 0 := by
  simp [sinkReaders, List.countP_append, List.countP_singleton]

lemma stemReaders?_concat (statements : List PlannedStatement) (q : PlannedStatement) (s : Stem) :
    stemReaders? (statements ++ [q]) s =
      if q.origin = .stem s then some ((stemReaders? statements s).getD 0 + 1)
      else stemReaders? statements s := by
  unfold stemReaders?
  rw [List.countP_append, List.countP_singleton]
  by_cases hq : q.origin = .stem s
  · simp only [hq, decide_true, if_true]
    cases statements.countP fun p => decide (p.origin = .stem s) <;> rfl
  · simp [hq]

end Plan

namespace Scope

/-- Where a scope knows `n` statements, a source refers to one of them. -/
lemma lt_of_find {scope : Scope} {n : Nat} (h : ∀ name j, scope.lookup name = some j → j < n)
    {i : Nat} {source : Source} {origin : Origin} (hf : scope.find i source = .ok origin) :
    ∀ name j, origin = .sink name j → j < n := by
  rintro name j rfl
  unfold find at hf
  split at hf
  · cases hf
  · split at hf
    · rename_i hlookup
      cases hf
      exact h _ _ hlookup
    · cases hf

lemma lookup_of_define {scope scope' : Scope} {i : Nat}
    (h : ∀ name j, scope.lookup name = some j → j < i) {source : Source} {name : String}
    (hd : scope.define i source name = .ok scope') :
    ∀ name j, scope'.lookup name = some j → j < i + 1 := by
  have hadd : define.add scope i name = .ok scope' := by
    unfold define at hd
    split at hd
    · split at hd
      · exact hd
      · cases hd
    · exact hd
  unfold define.add at hadd
  split at hadd
  · cases hadd
  · cases hadd
    intro other j hj
    rw [List.lookup_cons] at hj
    split at hj
    · cases hj
      omega
    · have hlt := h other j hj
      omega

end Scope

namespace Plan

/-- Statements that carry their places, and read sinks of earlier ones only. -/
structure Ordered (statements : List PlannedStatement) : Prop where
  index : ∀ (i : Nat) (q : PlannedStatement), statements[i]? = some q → q.index = i
  origin : ∀ (i : Nat) (q : PlannedStatement) (name : String) (j : Nat),
    statements[i]? = some q → q.origin = .sink name j → j < i

lemma ordered_nil : Ordered [] := ⟨by simp, by simp⟩

lemma Ordered.concat {statements : List PlannedStatement} {q : PlannedStatement}
    (h : Ordered statements) (hi : q.index = statements.length)
    (ho : ∀ name j, q.origin = .sink name j → j < statements.length) :
    Ordered (statements ++ [q]) := by
  constructor
  · intro i p hp
    rw [getElem?_concat] at hp
    split at hp
    · rename_i hlast
      cases hp
      rw [hi, hlast]
    · exact h.index i p hp
  · intro i p name j hp hj
    rw [getElem?_concat] at hp
    split at hp
    · rename_i hlast
      cases hp
      rw [hlast]
      exact ho name j hj
    · exact h.origin i p name j hp hj

/-- Nobody reads a sink that is yet to come. -/
lemma Ordered.sinkReaders_length {statements : List PlannedStatement} (h : Ordered statements) :
    sinkReaders statements statements.length = 0 := by
  rw [sinkReaders, List.countP_eq_zero]
  intro q hq hreads
  obtain ⟨i, hi⟩ := List.mem_iff_getElem?.mp hq
  obtain ⟨hlt, -⟩ := List.getElem?_eq_some_iff.mp hi
  cases ho : q.origin with
  | stem s => simp [ho, Origin.readsSink] at hreads
  | sink name j =>
    have hj := h.origin i q name j hi ho
    simp only [ho, Origin.readsSink, decide_eq_true_eq] at hreads
    omega

lemma statements_countReader {statements : List PlannedStatement} (h : Ordered statements)
    (origin : Origin) :
    ((ofResolved statements).countReader origin).statements =
      statements.map fun q => { q with
        readers :=
          sinkReaders statements q.index + if origin.readsSink q.index then 1 else 0 } := by
  cases origin with
  | stem s => simp [countReader, ofResolved]
  | sink name j =>
    apply List.ext_getElem?
    intro i
    simp only [countReader, ofResolved, List.getElem?_modify, List.getElem?_map,
      Origin.readsSink_sink]
    cases hi : statements[i]? with
    | none => rfl
    | some q =>
      have hindex := h.index i q hi
      by_cases hij : i = j
      · simp [hindex, hij]
      · simp [hindex, hij, Ne.symm hij]

lemma stemReaders_countReader (statements : List PlannedStatement) (origin : Origin) (s : Stem) :
    ((ofResolved statements).countReader origin).stemReaders.get? s =
      if origin = .stem s then some ((stemReaders? statements s).getD 0 + 1)
      else stemReaders? statements s := by
  cases origin with
  | stem t =>
    simp only [countReader, ofResolved, StemMap.insert, StemMap.get?_set, StemMap.get?_ofFn,
      Origin.stem.injEq]
    split
    · rename_i ht
      rw [ht]
    · rfl
  | sink name j => simp [countReader, ofResolved]

/-- One statement more, counted at once or in the end. -/
lemma addStatement_ofResolved {statements : List PlannedStatement} (h : Ordered statements)
    {origin : Origin} (ho : ∀ name j, origin = .sink name j → j < statements.length)
    (s : Statement) :
    (ofResolved statements).addStatement origin s =
      ofResolved (statements ++ [⟨statements.length, origin, s.actions, s.sink, 0⟩]) := by
  have hlength : (ofResolved statements).statements.length = statements.length := by
    rw [ofResolved, List.length_map]
  -- The new statement is not read by those before it, nor by itself.
  have hnew : origin.readsSink statements.length = false := by
    cases origin with
    | stem t => rfl
    | sink name j =>
      have hj := ho name j rfl
      simp only [Origin.readsSink, decide_eq_false_iff_not]
      omega
  have hstems : ((ofResolved statements).countReader origin).stemReaders = .ofFn (stemReaders?
      (statements ++ [⟨statements.length, origin, s.actions, s.sink, 0⟩])) := by
    apply StemMap.ext_get?
    intro t
    rw [stemReaders_countReader, StemMap.get?_ofFn, stemReaders?_concat]
  simp only [addStatement]
  rw [hlength, statements_countReader h, hstems]
  simp [ofResolved, sinkReaders_concat, h.sinkReaders_length, hnew]

/-- Counting on the way and counting in the end give the same plan, or the same error. -/
theorem result_extend {scope : Scope} {before : List PlannedStatement} (hb : Ordered before)
    (hscope : ∀ name j, scope.lookup name = some j → j < before.length) (rest : List Statement) :
    (extend scope (ofResolved before) rest).result =
      (resolve scope before.length rest).result.map fun planned =>
        ofResolved (before ++ planned) := by
  induction rest generalizing scope before with
  | nil => simp [extend, resolve, Except.map]
  | cons s rest ih =>
    have hlength : (ofResolved before).statements.length = before.length := by
      rw [ofResolved, List.length_map]
    rw [extend, resolve, hlength]
    cases hf : scope.find before.length s.source with
    | error e => rfl
    | ok origin =>
      rw [Traced.ofExcept_ok_bind, Traced.ofExcept_ok_bind]
      cases hd : scope.define before.length s.source s.sink.name with
      | error e => rfl
      | ok scope' =>
        have horigin := Scope.lt_of_find hscope hf
        have hbefore := hb.concat (q := ⟨before.length, origin, s.actions, s.sink, 0⟩) rfl horigin
        have hrest := ih hbefore (by simpa using Scope.lookup_of_define hscope hd)
        rw [List.length_append, List.length_singleton] at hrest
        rw [Traced.ofExcept_ok_bind, Traced.ofExcept_ok_bind,
          Traced.result_bind_ok (Traced.result_tell _),
          Traced.result_bind_ok (Traced.result_tell _), addStatement_ofResolved hb horigin, hrest,
          Traced.result_bind]
        cases (resolve scope' (before.length + 1) rest).result with
        | error e => rfl
        | ok planned => simp [Except.map, bind, Except.bind]

lemma result_extend_empty (statements : List Statement) :
    (extend [] empty statements).result = (resolve [] 0 statements).result.map ofResolved :=
  result_extend ordered_nil (by simp) statements

end Plan

end Remix
