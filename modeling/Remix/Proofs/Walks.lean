import Mathlib.Data.List.Basic
import Mathlib.Data.String.Basic
import Mathlib.Tactic.Common
import Remix.StemFolder

/-!
# Walks through a folder

A walk meets every file of a folder once: the entries in the order of the bytes of their names, and
what is in an inner folder before what follows the folder. That names are compared character by
character makes no difference, for of two characters the one with the smaller number has the smaller
bytes. So a walk does not depend on the order in which folders list their entries.
-/

namespace Remix

section Names

open String (utf8EncodeChar)

/-- The bytes of a name. -/
def nameBytes (name : String) : List UInt8 := name.toUTF8.data.toList

lemma nameBytes_eq (name : String) : nameBytes name = name.toList.flatMap utf8EncodeChar := by
  rw [nameBytes, String.toUTF8_eq_toByteArray, ← String.utf8Encode_toList, List.utf8Encode]
  simp

/-- Whatever follows, the bytes of a character decide. -/
lemma encode_lt {c d : Char} (h : c < d) (x y : List UInt8) :
    utf8EncodeChar c ++ x < utf8EncodeChar d ++ y := by
  have hlt : c.val.toNat < d.val.toNat := UInt32.lt_iff_toNat_lt.mp h
  have hlast : d.val.toNat < 0x110000 := by
    have hvalid := d.valid
    simp only [UInt32.isValidChar, Nat.isValidChar] at hvalid
    omega
  unfold utf8EncodeChar
  generalize c.val.toNat = m at hlt ⊢
  generalize d.val.toNat = n at hlt hlast ⊢
  dsimp only
  -- The larger character has as many bytes or more. The first byte tells how many.
  split_ifs <;> try omega
  all_goals
    simp (disch := omega) only [List.cons_append, List.nil_append, List.cons_lt_cons_iff,
      UInt8.lt_iff_toNat_lt, ← UInt8.toNat_inj, UInt8.toNat_ofNat', Nat.reducePow,
      Nat.mod_eq_of_lt]
    omega

lemma flatMap_encode_lt {l m : List Char} (h : l < m) :
    l.flatMap utf8EncodeChar < m.flatMap utf8EncodeChar := by
  induction h with
  | @nil c m =>
    obtain ⟨b, bytes, hc⟩ := List.exists_cons_of_ne_nil (String.utf8EncodeChar_ne_nil (c := c))
    rw [List.flatMap_cons, hc]
    exact List.nil_lt_cons b _
  | rel hcd => exact encode_lt hcd _ _
  | cons _ ih => exact List.append_left_lt ih

/-- Names are in the order of their bytes. -/
lemma nameBytes_lt_iff {a b : String} : nameBytes a < nameBytes b ↔ a < b := by
  have hmono {a b : String} (h : a < b) : nameBytes a < nameBytes b := by
    rw [nameBytes_eq, nameBytes_eq]
    exact flatMap_encode_lt (String.lt_iff_toList_lt.mp h)
  constructor
  · intro h
    by_contra hnot
    rcases lt_or_eq_of_le (not_lt.mp hnot) with hgt | rfl
    · exact List.lt_asymm h (hmono hgt)
    · exact List.lt_irrefl _ h
  · exact hmono

end Names

/-- A file is met before another: where their ways part, its step has the smaller bytes. -/
inductive MetBefore : List String → List String → Prop where
  | sibling {name name' : String} (h : nameBytes name < nameBytes name')
      (rest rest' : List String) : MetBefore (name :: rest) (name' :: rest')
  | inside (name : String) {rest rest' : List String} (h : MetBefore rest rest') :
      MetBefore (name :: rest) (name :: rest')

namespace MetBefore

lemma irrefl {steps : List String} : ¬ MetBefore steps steps := by
  intro h
  induction steps with
  | nil => cases h
  | cons name rest ih =>
    cases h with
    | sibling hlt => exact List.lt_irrefl _ hlt
    | inside _ h => exact ih h

lemma asymm {steps steps' : List String} (h : MetBefore steps steps') :
    ¬ MetBefore steps' steps := by
  intro h'
  induction h with
  | sibling hlt =>
    cases h' with
    | sibling hgt => exact List.lt_asymm hlt hgt
    | inside => exact List.lt_irrefl _ hlt
  | inside _ _ ih =>
    cases h' with
    | sibling hgt => exact List.lt_irrefl _ hgt
    | inside _ h' => exact ih h'

end MetBefore

/-- No two entries of a folder have the same name, and so on in its inner folders down to a
level. -/
def DistinctNames : Nat → List (String × Entry) → Prop
  | 0, _ => True
  | depth + 1, children => (children.map Prod.fst).Nodup ∧
      ∀ name inner, (name, Entry.folder inner) ∈ children → DistinctNames depth inner

/-- The files that an entry of a folder stands for, by the steps that lead to them. -/
def entrySteps (inside : List (String × Entry) → List (List String × Bytes)) (name : String) :
    Entry → List (List String × Bytes)
  | .file content => [([name], content)]
  | .folder inner => (inside inner).map fun (steps, content) => (name :: steps, content)

/-- The files in a folder at most `depth` levels down, by the steps that lead to them, as a walk
meets them. -/
def walkSteps : Nat → List (String × Entry) → List (List String × Bytes)
  | 0, _ => []
  | depth + 1, children =>
    (children.mergeSort fun a b => a.1 ≤ b.1).flatMap fun (name, e) =>
      entrySteps (walkSteps depth) name e

section Walk

variable {depth : Nat} {children : List (String × Entry)} {steps : List String} {content : Bytes}

lemma mem_entrySteps {inside : List (String × Entry) → List (List String × Bytes)} {name : String}
    {e : Entry} : (steps, content) ∈ entrySteps inside name e ↔
      e = .file content ∧ steps = [name] ∨ ∃ inner rest,
        e = .folder inner ∧ steps = name :: rest ∧ (rest, content) ∈ inside inner := by
  cases e with
  | file c =>
    simp only [entrySteps, List.mem_singleton, Prod.mk.injEq, Entry.file.injEq, reduceCtorEq,
      false_and, exists_false, or_false]
    exact ⟨fun ⟨h, h'⟩ => ⟨h'.symm, h⟩, fun ⟨h, h'⟩ => ⟨h', h.symm⟩⟩
  | folder inner =>
    simp only [entrySteps, List.mem_map, Prod.exists, Prod.mk.injEq, reduceCtorEq, false_and,
      false_or, Entry.folder.injEq]
    constructor
    · rintro ⟨rest, c, hmem, rfl, rfl⟩
      exact ⟨inner, rest, rfl, rfl, hmem⟩
    · rintro ⟨_, rest, rfl, rfl, hmem⟩
      exact ⟨rest, content, hmem, rfl, rfl⟩

lemma exists_eq_cons {inside : List (String × Entry) → List (List String × Bytes)} {name : String}
    {e : Entry} (h : (steps, content) ∈ entrySteps inside name e) :
    ∃ rest, steps = name :: rest := by
  obtain ⟨-, rfl⟩ | ⟨inner, rest, -, rfl, -⟩ := mem_entrySteps.mp h
  · exact ⟨[], rfl⟩
  · exact ⟨rest, rfl⟩

lemma mem_walkSteps_succ : (steps, content) ∈ walkSteps (depth + 1) children ↔
    ∃ name e, (name, e) ∈ children ∧ (steps, content) ∈ entrySteps (walkSteps depth) name e := by
  rw [walkSteps, List.mem_flatMap]
  simp only [List.mem_mergeSort, Prod.exists]

lemma ne_nil_of_mem_walkSteps (h : (steps, content) ∈ walkSteps depth children) : steps ≠ [] := by
  cases depth with
  | zero => cases h
  | succ depth =>
    obtain ⟨name, e, -, hmem⟩ := mem_walkSteps_succ.mp h
    obtain ⟨rest, rfl⟩ := exists_eq_cons hmem
    exact List.cons_ne_nil _ _

lemma walk_eq (depth : Nat) (folder : String) (children : List (String × Entry)) :
    walk depth folder children = (walkSteps depth children).map fun (steps, content) =>
      ⟨steps.foldl childPath folder, steps.getLastD "", content⟩ := by
  induction depth generalizing folder children with
  | zero => rfl
  | succ depth ih =>
    rw [walk, walkSteps, List.map_flatMap]
    refine List.flatMap_congr fun (name, e) _ => ?_
    cases e with
    | file content => rfl
    | folder inner =>
      dsimp only [entrySteps]
      rw [ih, List.map_map]
      refine List.map_congr_left fun (steps, content) h => ?_
      obtain ⟨step, rest, rfl⟩ := List.exists_cons_of_ne_nil (ne_nil_of_mem_walkSteps h)
      simp only [Function.comp_apply, List.foldl_cons, List.getLastD_cons]

lemma lookup_eq_some_iff_mem (h : (children.map Prod.fst).Nodup) {name : String} {e : Entry} :
    children.lookup name = some e ↔ (name, e) ∈ children := by
  rw [List.lookup_eq_some_iff]
  constructor
  · rintro ⟨before, after, rfl, -⟩
    exact List.mem_append_right _ List.mem_cons_self
  · intro hmem
    obtain ⟨before, after, rfl⟩ := List.append_of_mem hmem
    refine ⟨before, after, rfl, fun p hp => ?_⟩
    rw [List.map_append, List.map_cons, List.nodup_append] at h
    exact bne_iff_ne.mpr (h.2.2 p.1 (List.mem_map_of_mem hp) name List.mem_cons_self).symm

lemma get?_cons_eq_some_iff (h : (children.map Prod.fst).Nodup) {name : String}
    {rest : List String} {e' : Entry} : (Entry.folder children).get? (name :: rest) = some e' ↔
      ∃ e, (name, e) ∈ children ∧ e.get? rest = some e' := by
  simp only [Entry.get?, ← lookup_eq_some_iff_mem h]
  cases children.lookup name <;> simp

lemma mem_walkSteps (h : DistinctNames depth children) :
    (steps, content) ∈ walkSteps depth children ↔
      steps ≠ [] ∧ steps.length ≤ depth ∧
        (Entry.folder children).get? steps = some (.file content) := by
  induction depth generalizing children steps with
  | zero =>
    refine iff_of_false nofun ?_
    rintro ⟨hne, hlength, -⟩
    exact hne (List.eq_nil_of_length_eq_zero (Nat.le_zero.mp hlength))
  | succ depth ih =>
    obtain ⟨hnames, hinner⟩ := h
    rw [mem_walkSteps_succ]
    constructor
    · rintro ⟨name, e, hmem, hsteps⟩
      obtain ⟨rfl, rfl⟩ | ⟨inner, rest, rfl, rfl, hrest⟩ := mem_entrySteps.mp hsteps
      · refine ⟨List.cons_ne_nil _ _, Nat.succ_le_succ (Nat.zero_le depth), ?_⟩
        rw [get?_cons_eq_some_iff hnames]
        exact ⟨_, hmem, rfl⟩
      · obtain ⟨-, hlength, hget⟩ := (ih (hinner name inner hmem)).mp hrest
        refine ⟨List.cons_ne_nil _ _, Nat.succ_le_succ hlength, ?_⟩
        rw [get?_cons_eq_some_iff hnames]
        exact ⟨_, hmem, hget⟩
    · rintro ⟨hne, hlength, hget⟩
      obtain ⟨name, rest, rfl⟩ := List.exists_cons_of_ne_nil hne
      obtain ⟨e, hmem, hget⟩ := (get?_cons_eq_some_iff hnames).mp hget
      refine ⟨name, e, hmem, mem_entrySteps.mpr ?_⟩
      cases rest with
      | nil => exact .inl ⟨Option.some.inj hget, rfl⟩
      | cons step rest =>
        cases e with
        | file c => cases hget
        | folder inner =>
          refine .inr ⟨inner, step :: rest, rfl, rfl, ?_⟩
          rw [ih (hinner name inner hmem)]
          exact ⟨List.cons_ne_nil _ _, Nat.le_of_succ_le_succ hlength, hget⟩

/-- The entries of a folder in the order of their names. -/
lemma pairwise_mergeSort_names (h : (children.map Prod.fst).Nodup) :
    (children.mergeSort fun a b => a.1 ≤ b.1).Pairwise fun a b =>
      nameBytes a.1 < nameBytes b.1 := by
  have hsorted : (children.mergeSort fun a b => a.1 ≤ b.1).Pairwise fun a b =>
      decide (a.1 ≤ b.1) = true := by
    refine List.pairwise_mergeSort (fun a b c hab hbc => ?_) (fun a b => ?_) children
    · exact decide_eq_true (le_trans (of_decide_eq_true hab) (of_decide_eq_true hbc))
    · simpa using le_total a.1 b.1
  have hnodup : ((children.mergeSort fun a b => a.1 ≤ b.1).map Prod.fst).Nodup :=
    ((List.mergeSort_perm children _).map Prod.fst).nodup_iff.mpr h
  refine (hsorted.and (List.pairwise_map.mp hnodup)).imp ?_
  rintro a b ⟨hle, hne⟩
  exact nameBytes_lt_iff.mpr (lt_of_le_of_ne (of_decide_eq_true hle) hne)

/-- A walk meets the files one after the other. -/
lemma pairwise_walkSteps (h : DistinctNames depth children) :
    (walkSteps depth children).Pairwise fun p q => MetBefore p.1 q.1 := by
  induction depth generalizing children with
  | zero => exact .nil
  | succ depth ih =>
    obtain ⟨hnames, hinner⟩ := h
    rw [walkSteps, List.pairwise_flatMap]
    refine ⟨?_, (pairwise_mergeSort_names hnames).imp ?_⟩
    · intro (name, e) hmem
      cases e with
      | file content => exact List.pairwise_singleton _ _
      | folder inner =>
        have hrest := ih (hinner name inner (List.mem_mergeSort.mp hmem))
        exact List.pairwise_map.mpr (hrest.imp (.inside name))
    · intro a b hlt p hp q hq
      obtain ⟨rest, hp⟩ := exists_eq_cons hp
      obtain ⟨rest', hq⟩ := exists_eq_cons hq
      rw [hp, hq]
      exact .sibling hlt rest rest'

/-- Folders with the same files at the same places are walked alike, in whatever order they list
their entries. -/
lemma walkSteps_congr {children' : List (String × Entry)} (h : DistinctNames depth children)
    (h' : DistinctNames depth children')
    (hsame : ∀ steps content, (Entry.folder children').get? steps = some (.file content) ↔
      (Entry.folder children).get? steps = some (.file content)) :
    walkSteps depth children' = walkSteps depth children := by
  -- Both walks are sorted, and they meet the same files.
  have hmem : ∀ p, p ∈ walkSteps depth children' ↔ p ∈ walkSteps depth children := by
    intro (steps, content)
    rw [mem_walkSteps h, mem_walkSteps h', hsame]
  have hnodup {children : List (String × Entry)} (h : DistinctNames depth children) :
      (walkSteps depth children).Nodup := by
    refine (pairwise_walkSteps h).imp ?_
    rintro p _ hbefore rfl
    exact hbefore.irrefl
  have hperm := (List.perm_ext_iff_of_nodup (hnodup h') (hnodup h)).mpr hmem
  exact hperm.eq_of_pairwise (fun _ _ _ _ hpq hqp => absurd hqp hpq.asymm) (pairwise_walkSteps h')
    (pairwise_walkSteps h)

end Walk

end Remix
