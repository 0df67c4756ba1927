/-!
# Stems

The five tracks that a separator splits a song into. Their names are reserved words of the recipe
language, and `StemMap` is a table with at most one entry for each of them.
-/

namespace Remix

/-- A track of a separated song. -/
inductive Stem where
  | bass
  | drums
  | other
  | piano
  | vocals
  deriving DecidableEq, Repr

namespace Stem

/-- Every stem, in the order in which stems are listed. -/
def all : List Stem := [bass, drums, other, piano, vocals]

theorem mem_all (s : Stem) : s ∈ all := by cases s <;> decide

/-- The name of a stem in a recipe. -/
def name : Stem → String
  | bass => "bass"
  | drums => "drums"
  | other => "other"
  | piano => "piano"
  | vocals => "vocals"

/-- The stem with a given name; names are compared exactly. -/
def ofName? (word : String) : Option Stem := all.find? (·.name = word)

@[simp] theorem ofName?_name (s : Stem) : ofName? s.name = some s := by cases s <;> decide

theorem ofName?_eq_some_iff {word : String} {s : Stem} : ofName? word = some s ↔ word = s.name := by
  constructor
  · intro h
    have h' := List.find?_some h
    exact (of_decide_eq_true h').symm
  · rintro rfl
    exact ofName?_name s

theorem ofName?_eq_none_iff {word : String} :
    ofName? word = none ↔ ∀ s : Stem, word ≠ s.name := by
  constructor
  · rintro h s rfl
    rw [ofName?_name] at h
    cases h
  · intro h
    cases hs : ofName? word with
    | none => rfl
    | some s => exact absurd (ofName?_eq_some_iff.mp hs) (h s)

end Stem

/-- At most one value for each stem. -/
structure StemMap (α : Type) where
  bass : Option α := none
  drums : Option α := none
  other : Option α := none
  piano : Option α := none
  vocals : Option α := none
  deriving DecidableEq, Repr

namespace StemMap

variable {α β : Type}

instance : EmptyCollection (StemMap α) := ⟨{}⟩

def get? (m : StemMap α) : Stem → Option α
  | .bass => m.bass
  | .drums => m.drums
  | .other => m.other
  | .piano => m.piano
  | .vocals => m.vocals

/-- The table with the entry of one stem replaced; `none` takes the entry away. -/
def set (m : StemMap α) (s : Stem) (value : Option α) : StemMap α :=
  match s with
  | .bass => { m with bass := value }
  | .drums => { m with drums := value }
  | .other => { m with other := value }
  | .piano => { m with piano := value }
  | .vocals => { m with vocals := value }

def insert (m : StemMap α) (s : Stem) (value : α) : StemMap α := m.set s (some value)

def erase (m : StemMap α) (s : Stem) : StemMap α := m.set s none

def contains (m : StemMap α) (s : Stem) : Bool := (m.get? s).isSome

/-- The stems that have an entry, in stem order. -/
def stems (m : StemMap α) : List Stem := Stem.all.filter m.contains

/-- The entries, in stem order. -/
def toList (m : StemMap α) : List (Stem × α) :=
  Stem.all.filterMap fun s => (m.get? s).map (s, ·)

def size (m : StemMap α) : Nat := m.stems.length

def isEmpty (m : StemMap α) : Bool := m.stems.isEmpty

/-- The table that holds `f s` for each stem `s`. -/
def ofFn (f : Stem → Option α) : StemMap α :=
  ⟨f .bass, f .drums, f .other, f .piano, f .vocals⟩

@[simp] theorem get?_empty (s : Stem) : (∅ : StemMap α).get? s = none := by cases s <;> rfl

@[simp] theorem get?_ofFn (f : Stem → Option α) (s : Stem) : (ofFn f).get? s = f s := by
  cases s <;> rfl

@[simp] theorem get?_set_self (m : StemMap α) (s : Stem) (v : Option α) :
    (m.set s v).get? s = v := by cases s <;> rfl

theorem get?_set_of_ne (m : StemMap α) {s t : Stem} (v : Option α) (h : s ≠ t) :
    (m.set s v).get? t = m.get? t := by
  cases s <;> cases t <;> first | exact absurd rfl h | rfl

theorem get?_set (m : StemMap α) (s t : Stem) (v : Option α) :
    (m.set s v).get? t = if s = t then v else m.get? t := by
  by_cases h : s = t
  · subst h; simp
  · simp [h, get?_set_of_ne m v h]

@[ext] theorem ext_get? {m n : StemMap α} (h : ∀ s, m.get? s = n.get? s) : m = n := by
  cases m; cases n
  simp only [StemMap.mk.injEq]
  exact ⟨h .bass, h .drums, h .other, h .piano, h .vocals⟩

end StemMap

end Remix
