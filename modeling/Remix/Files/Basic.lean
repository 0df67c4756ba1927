import Remix.Bytes

/-!
# Files and folders

A tree of files and folders with a place in it, the working folder, from which relative paths start.
Paths are followed step by step; a file is read at the end of a path, and written into a folder that
is there already. Writing gives a new tree, which differs from the old one only at that file.

All names are texts. A tree has neither entries whose names are other bytes nor links, and none that
may not be read.
-/

namespace Remix

inductive Entry where
  | file (content : Bytes)
  | folder (children : List (String × Entry))

/-- Why a path cannot be read or written. -/
inductive FileFault where
  | notFound
  | isFolder
  | notFolder
  | nameTooLong
  | nulInPath
  | notText
  deriving DecidableEq, Repr

namespace FileFault

def message : FileFault → String
  | notFound => "No such file or directory (os error 2)"
  | isFolder => "Is a directory (os error 21)"
  | notFolder => "Not a directory (os error 20)"
  | nameTooLong => "File name too long (os error 36)"
  | nulInPath => "file name contained an unexpected NUL byte"
  | notText => "stream did not contain valid UTF-8"

end FileFault

/-- The children of a folder with the one of a name replaced, or added at the end. -/
def insertChild (name : String) (e : Entry) : List (String × Entry) → List (String × Entry)
  | [] => [(name, e)]
  | (n, old) :: children =>
    if n = name then (n, e) :: children else (n, old) :: insertChild name e children

theorem lookup_insertChild_self (name : String) (e : Entry) (children : List (String × Entry)) :
    (insertChild name e children).lookup name = some e := by
  induction children with
  | nil => simp [insertChild]
  | cons c children ih =>
    obtain ⟨n, old⟩ := c
    by_cases h : n = name
    · simp [insertChild, h]
    · have h' : (name == n) = false := by simpa using Ne.symm h
      simp [insertChild, h, List.lookup_cons, h', ih]

theorem lookup_insertChild_ne {name other : String} (h : other ≠ name) (e : Entry)
    (children : List (String × Entry)) :
    (insertChild name e children).lookup other = children.lookup other := by
  have h' : (other == name) = false := by simpa using h
  induction children with
  | nil => simp [insertChild, List.lookup_cons, h']
  | cons c children ih =>
    obtain ⟨n, old⟩ := c
    by_cases hn : n = name
    · subst hn
      simp [insertChild, List.lookup_cons, h']
    · simp only [insertChild, if_neg hn, List.lookup_cons, ih]

namespace Entry

/-- The entry that names lead to. -/
def get? : List String → Entry → Option Entry
  | [], e => some e
  | name :: names, folder children =>
    match children.lookup name with
    | some e => e.get? names
    | none => none
  | _ :: _, file _ => none

/-- The tree with an entry put where names lead. Whatever is missing on the way, or is a file,
becomes a folder. -/
def put : List String → Entry → Entry → Entry
  | [], _, new => new
  | name :: names, folder children, new =>
    folder (insertChild name (put names ((children.lookup name).getD (folder [])) new) children)
  | name :: names, file _, new => folder [(name, put names (folder []) new)]

theorem get?_put_self (names : List String) (e new : Entry) :
    (e.put names new).get? names = some new := by
  induction names generalizing e with
  | nil => rfl
  | cons name names ih =>
    cases e with
    | file content => simp [put, get?, ih]
    | folder children => simp only [put, get?, lookup_insertChild_self, ih]

end Entry

/-- The steps of a path: what stands between its slashes. -/
def pathSteps (path : String) : List String :=
  (path.toList.foldr
    (fun c steps => if c = '/' then [] :: steps else (c :: steps.headD []) :: steps.tail)
    [[]]).map String.ofList

/-- Where a step leads from the place that names lead to, if nothing is in the way. -/
def stepFrom (names : List String) (step : String) : List String :=
  if step = ".." then names.dropLast
  else if step = "" ∨ step = "." then names
  else names ++ [step]

/-- The largest number of bytes of a name. -/
def maxName : Nat := 255

/-- The largest number of bytes of a path. -/
def maxPath : Nat := 4095

/-- What is wrong with a path by itself, whatever there is in the tree. -/
def pathFault? (path : String) : Option FileFault :=
  if path.toList.contains '\x00' then some .nulInPath
  else if path = "" then some .notFound
  else if maxPath < path.utf8ByteSize then some .nameTooLong
  else none

/-- The fault of a name that is not in a folder. -/
def absentFault (name : String) : FileFault :=
  if maxName < name.utf8ByteSize then .nameTooLong else .notFound

/-- A tree with the names that lead to its working folder. -/
structure Files where
  root : Entry
  here : List String

namespace Files

def empty : Files := ⟨.folder [], []⟩

/-- The entry that names lead to from the root. -/
def get? (f : Files) (names : List String) : Option Entry := f.root.get? names

/-- Where a path starts. -/
def origin (f : Files) (path : String) : List String :=
  if path.toList.head? = some '/' then [] else f.here

/-- Where a path leads if nothing is in the way. -/
def place (f : Files) (path : String) : List String :=
  (pathSteps path).foldl stepFrom (f.origin path)

/-- Follows steps from a place on. A step without a name stays, and so does a point; two points lead
to the folder above. -/
def follow (f : Files) : List String → List String → Except FileFault (List String)
  | place, [] => .ok place
  | place, step :: steps =>
    match f.get? place with
    | none => .error .notFound
    | some (.file _) => .error .notFolder
    | some (.folder children) =>
      if step = "" ∨ step = "." then f.follow place steps
      else if step = ".." then f.follow place.dropLast steps
      else if (children.lookup step).isSome then f.follow (place ++ [step]) steps
      else .error (absentFault step)

/-- What a path leads to. -/
def entry (f : Files) (path : String) : Except FileFault Entry := do
  if let some fault := pathFault? path then throw fault
  match f.get? (← f.follow (f.origin path) (pathSteps path)) with
  | some e => return e
  | none => throw .notFound

def contains (f : Files) (path : String) : Bool := (f.entry path).isOk

/-- The children of the folder that a path leads to, if it leads to a folder. -/
def folder? (f : Files) (path : String) : Option (List (String × Entry)) :=
  match f.entry path with
  | .ok (.folder children) => some children
  | _ => none

/-- The content of the file that a path leads to. -/
def read (f : Files) (path : String) : Except FileFault Bytes := do
  match ← f.entry path with
  | .file content => return content
  | .folder _ => throw .isFolder

/-- The content of a file as text. -/
def readText (f : Files) (path : String) : Except FileFault String := do
  match String.fromUTF8? (← f.read path).toByteArray with
  | some text => return text
  | none => throw .notText

/-- Where the file is written that a path names: in a folder that is there, where no other folder
has its name. A path that ends in a slash or in points names a folder. -/
def target (f : Files) (path : String) : Except FileFault (List String) := do
  if let some fault := pathFault? path then throw fault
  let steps := (pathSteps path).reverse
  match steps.dropWhile (· = "") with
  | [] => throw .isFolder
  | name :: above =>
    let place ← f.follow (f.origin path) above.reverse
    match f.get? place with
    | none => throw .notFound
    | some (.file _) => throw .notFolder
    | some (.folder children) =>
      if name = "." ∨ name = ".." ∨ steps.head? = some "" then throw .isFolder
      match children.lookup name with
      | some (.folder _) => throw .isFolder
      | some (.file _) => return place ++ [name]
      | none =>
        if maxName < name.utf8ByteSize then throw .nameTooLong
        return place ++ [name]

/-- The tree with a file written at a path. -/
def write (f : Files) (path : String) (content : Bytes) : Except FileFault Files :=
  (f.target path).map fun names => { f with root := f.root.put names (.file content) }

/-- The tree with a file where names lead from the root, and every folder on the way. -/
def addFile (f : Files) (names : List String) (content : Bytes) : Files :=
  { f with root := f.root.put names (.file content) }

/-- The tree with a folder where names lead from the root, and every folder on the way. A folder
that is there already stays as it is. -/
def addFolder (f : Files) (names : List String) : Files :=
  match f.get? names with
  | some (.folder _) => f
  | _ => { f with root := f.root.put names (.folder []) }

/-- An empty working folder where names lead from the root, and nothing else but the folders on the
way. -/
def emptyAt (here : List String) : Files := { empty.addFolder here with here }

/-- The tree with every folder on the way of a path. -/
def addWay (f : Files) (path : String) : Files :=
  let add (way : Files × List String) (step : String) :=
    let place := stepFrom way.2 step
    (way.1.addFolder place, place)
  ((pathSteps path).dropLast.foldl add (f, f.origin path)).1

end Files

end Remix
