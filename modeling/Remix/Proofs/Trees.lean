import Mathlib.Tactic.Common
import Remix.Files.Basic

/-!
# What writing does to a tree

A file that is written at a path is read back at that path, and everything else stays in its place.
The folders on the way of the path are there before, and they stay folders; so a path leads to the
same place before and after.
-/

namespace Remix

namespace Entry

/-- The content of a file. A folder has none. -/
def content? : Entry → Option Bytes
  | file content => some content
  | folder _ => none

lemma get?_append (names more : List String) (e : Entry) :
    e.get? (names ++ more) = (e.get? names).bind (·.get? more) := by
  induction names generalizing e with
  | nil => rfl
  | cons name names ih =>
    cases e with
    | file content => rfl
    | folder children =>
      simp only [List.cons_append, get?]
      cases children.lookup name with
      | none => rfl
      | some e => exact ih e

lemma get?_concat {names : List String} {e : Entry} {children : List (String × Entry)}
    (h : e.get? names = some (folder children)) (name : String) :
    e.get? (names ++ [name]) = children.lookup name := by
  rw [get?_append, h, Option.bind_some, get?]
  cases children.lookup name <;> rfl

/-- A file that takes the place of a file, or of nothing, in a folder leaves what there is at any
other place. -/
lemma content?_put_ne {place : List String} {name : String} {e : Entry}
    {children : List (String × Entry)} (hplace : e.get? place = some (folder children))
    (hname : ∀ inner, children.lookup name ≠ some (folder inner)) (content : Bytes)
    {other : List String} (hother : other ≠ place ++ [name]) :
    ((e.put (place ++ [name]) (file content)).get? other).map content? =
      (e.get? other).map content? := by
  induction place generalizing e other with
  | nil =>
    cases hplace
    cases other with
    | nil => rfl
    | cons o os =>
      simp only [List.nil_append, put, get?]
      by_cases ho : o = name
      · subst ho
        rw [lookup_insertChild_self]
        have hos : os ≠ [] := by
          rintro rfl
          exact hother rfl
        obtain ⟨o', os', rfl⟩ := List.exists_cons_of_ne_nil hos
        cases hold : children.lookup o with
        | none => rfl
        | some old =>
          cases old with
          | file _ => rfl
          | folder inner => exact absurd hold (hname inner)
      · rw [lookup_insertChild_ne ho]
  | cons p ps ih =>
    cases e with
    | file _ => cases hplace
    | folder first =>
      simp only [get?] at hplace
      cases hp : first.lookup p with
      | none =>
        rw [hp] at hplace
        cases hplace
      | some inner =>
        rw [hp] at hplace
        cases other with
        | nil => rfl
        | cons o os =>
          simp only [List.cons_append, put, get?, hp, Option.getD_some]
          by_cases ho : o = p
          · subst ho
            rw [lookup_insertChild_self, hp]
            exact ih hplace fun h => hother (by rw [h]; rfl)
          · rw [lookup_insertChild_ne ho]

end Entry

namespace Files

/-- Two trees that differ, if at all, in the file at one place. -/
structure DifferAt (names : List String) (f g : Files) : Prop where
  here : g.here = f.here
  elsewhere : ∀ other, other ≠ names →
    (g.get? other).map Entry.content? = (f.get? other).map Entry.content?

variable {f : Files} {path : String} {names : List String}

lemma follow_append (f : Files) (place steps more : List String) :
    f.follow place (steps ++ more) = f.follow place steps >>= (f.follow · more) := by
  induction steps generalizing place with
  | nil => rfl
  | cons step steps ih =>
    simp only [List.cons_append, follow]
    split
    · rfl
    · rfl
    · split
      · exact ih _
      · split
        · exact ih _
        · split
          · exact ih _
          · rfl

/-- A place where a file can be written: in a folder that the path leads to but for its last step. -/
structure IsTarget (f : Files) (path : String) (names : List String) : Prop where
  sound : pathFault? path = none
  exists_folder : ∃ above place name children, pathSteps path = above ++ [name] ∧
    names = place ++ [name] ∧ f.follow (f.origin path) above = .ok place ∧
    f.get? place = some (.folder children) ∧
    (∀ inner, children.lookup name ≠ some (.folder inner)) ∧
    name ≠ "" ∧ name ≠ "." ∧ name ≠ ".."

lemma eq_cons_of_dropWhile {steps above : List String} {name : String}
    (hhead : steps.head? ≠ some "") (h : steps.dropWhile (· = "") = name :: above) :
    name ≠ "" ∧ steps = name :: above := by
  cases steps with
  | nil => cases h
  | cons step rest =>
    have hstep : step ≠ "" := fun he => hhead (by rw [he]; rfl)
    rw [List.dropWhile_cons_of_neg (by simpa using hstep)] at h
    cases h
    exact ⟨hstep, rfl⟩

lemma isTarget_of_target (h : f.target path = .ok names) : f.IsTarget path names := by
  unfold target at h
  cases hfault : pathFault? path with
  | some fault =>
    rw [hfault] at h
    cases h
  | none =>
    rw [hfault] at h
    cases hsteps : (pathSteps path).reverse.dropWhile (· = "") with
    | nil =>
      simp only [hsteps] at h
      cases h
    | cons name above =>
      simp only [hsteps] at h
      change (f.follow (f.origin path) above.reverse >>= _) = _ at h
      cases hfollow : f.follow (f.origin path) above.reverse with
      | error fault =>
        rw [hfollow] at h
        cases h
      | ok place =>
        simp only [hfollow, bind, Except.bind] at h
        cases hentry : f.get? place with
        | none =>
          rw [hentry] at h
          cases h
        | some e =>
          rw [hentry] at h
          cases e with
          | file content => cases h
          | folder children =>
            dsimp only at h
            by_cases hdots : name = "." ∨ name = ".." ∨ (pathSteps path).reverse.head? = some ""
            · rw [if_pos hdots] at h
              cases h
            · rw [if_neg hdots] at h
              obtain ⟨hdot, hdots, hhead⟩ : name ≠ "." ∧ name ≠ ".." ∧
                  (pathSteps path).reverse.head? ≠ some "" := by
                simpa only [not_or] using hdots
              obtain ⟨hname, hreverse⟩ := eq_cons_of_dropWhile hhead hsteps
              have hwhole : pathSteps path = above.reverse ++ [name] := by
                rw [← List.reverse_reverse (pathSteps path), hreverse, List.reverse_cons]
              have hchild : names = place ++ [name] ∧
                  ∀ inner, children.lookup name ≠ some (.folder inner) := by
                split at h
                · cases h
                · rename_i content hfile
                  cases h
                  exact ⟨rfl, fun inner hfolder => by rw [hfile] at hfolder; cases hfolder⟩
                · rename_i hnone
                  refine ⟨?_, fun inner hfolder => by rw [hnone] at hfolder; cases hfolder⟩
                  split at h
                  · cases h
                  · cases h
                    rfl
              obtain ⟨rfl, hchild⟩ := hchild
              exact ⟨hfault, above.reverse, place, name, children, hwhole, rfl, hfollow, hentry,
                hchild, hname, hdot, hdots⟩

namespace IsTarget

/-- A file that is written changes nothing but itself. -/
lemma differAt (h : f.IsTarget path names) (content : Bytes) :
    f.DifferAt names (f.addFile names content) := by
  obtain ⟨above, place, name, children, -, rfl, -, hplace, hname, -⟩ := h.exists_folder
  exact ⟨rfl, fun other hother => Entry.content?_put_ne hplace hname content hother⟩

lemma get?_addFile (f : Files) (names : List String) (content : Bytes) :
    (f.addFile names content).get? names = some (.file content) :=
  Entry.get?_put_self names f.root (.file content)

/-- A folder stays a folder, and keeps its children. -/
lemma exists_folder_addFile (h : f.IsTarget path names) (content : Bytes) {place : List String}
    {children : List (String × Entry)} (hplace : f.get? place = some (.folder children)) :
    ∃ children', (f.addFile names content).get? place = some (.folder children') ∧
      ∀ step, (children.lookup step).isSome → (children'.lookup step).isSome := by
  have hdiffer := (h.differAt content).elsewhere
  obtain ⟨above, parent, name, siblings, -, hnames, -, hparent, hname, -⟩ := h.exists_folder
  have hne : place ≠ names := by
    rintro rfl
    rw [hnames, get?, Entry.get?_concat hparent] at hplace
    exact hname children hplace
  obtain ⟨children', hplace'⟩ :
      ∃ children', (f.addFile names content).get? place = some (.folder children') := by
    have hsame := hdiffer place hne
    rw [hplace] at hsame
    cases hentry : (f.addFile names content).get? place with
    | none =>
      rw [hentry] at hsame
      cases hsame
    | some e =>
      rw [hentry] at hsame
      cases e with
      | file _ => cases hsame
      | folder children' => exact ⟨children', rfl⟩
  refine ⟨children', hplace', fun step hstep => ?_⟩
  rw [← Entry.get?_concat hplace']
  rw [← Entry.get?_concat hplace] at hstep
  by_cases hlast : place ++ [step] = names
  · rw [hlast]
    exact Option.isSome_of_mem (get?_addFile f names content)
  · have hsame := congrArg Option.isSome (hdiffer (place ++ [step]) hlast)
    rw [Option.isSome_map, Option.isSome_map] at hsame
    exact hsame.trans hstep

lemma follow_addFile (h : f.IsTarget path names) (content : Bytes) {place last : List String}
    {steps : List String} (hfollow : f.follow place steps = .ok last) :
    (f.addFile names content).follow place steps = .ok last := by
  induction steps generalizing place with
  | nil => exact hfollow
  | cons step steps ih =>
    rw [follow] at hfollow ⊢
    cases hplace : f.get? place with
    | none =>
      rw [hplace] at hfollow
      cases hfollow
    | some e =>
      rw [hplace] at hfollow
      cases e with
      | file _ => cases hfollow
      | folder children =>
        obtain ⟨children', hplace', hchildren⟩ := h.exists_folder_addFile content hplace
        rw [hplace']
        dsimp only at hfollow ⊢
        by_cases hstay : step = "" ∨ step = "."
        · rw [if_pos hstay] at hfollow ⊢
          exact ih hfollow
        · rw [if_neg hstay] at hfollow ⊢
          by_cases hup : step = ".."
          · rw [if_pos hup] at hfollow ⊢
            exact ih hfollow
          · rw [if_neg hup] at hfollow ⊢
            by_cases hchild : (children.lookup step).isSome
            · rw [if_pos hchild] at hfollow
              rw [if_pos (hchildren step hchild)]
              exact ih hfollow
            · rw [if_neg hchild] at hfollow
              cases hfollow

/-- What is written is read back. -/
lemma read_addFile (h : f.IsTarget path names) (content : Bytes) :
    (f.addFile names content).read path = .ok content := by
  obtain ⟨above, place, name, children, hsteps, hnames, hfollow, hplace, -, hempty, hdot, hdots⟩ :=
    h.exists_folder
  obtain ⟨children', hplace', -⟩ := h.exists_folder_addFile content hplace
  have hfile := get?_addFile f names content
  have hchild : (children'.lookup name).isSome := by
    rw [← Entry.get?_concat hplace', ← hnames]
    exact Option.isSome_of_mem hfile
  have hlast : (f.addFile names content).follow place [name] = .ok names := by
    rw [follow, hplace']
    dsimp only
    rw [if_neg (not_or.mpr ⟨hempty, hdot⟩), if_neg hdots, if_pos hchild, follow, hnames]
  have hwhole : (f.addFile names content).follow (f.origin path) (pathSteps path) =
      .ok names := by
    rw [hsteps, follow_append, h.follow_addFile content hfollow]
    exact hlast
  have hentry : (f.addFile names content).entry path = .ok (.file content) := by
    rw [entry, h.sound]
    change ((f.addFile names content).follow (f.origin path) (pathSteps path) >>= _) = _
    simp only [hwhole, hfile, bind, Except.bind]
    rfl
  rw [read, hentry]
  rfl

end IsTarget

end Files

end Remix
