import Remix.Event
import Remix.Traced
import Remix.Wave.Import

/-!
# Folders of stems

A program that separates a track leaves a wave file for each stem in a folder, or in a folder inside
of it. `findStems` takes the first file of each stem in a walk through the folder in which the
entries of each folder are in the order of their names; `loadStems` reads these files. A name that
is no text would be that of no stem; trees have none.
-/

namespace Remix

/-- A file by its path and its name. -/
structure NamedFile where
  path : String
  name : String
  content : Bytes
  deriving DecidableEq, Repr

/-- A file that holds a stem. -/
structure StemFile where
  stem : Stem
  path : String
  content : Bytes
  deriving DecidableEq, Repr

/-- The path of a child of a folder. -/
def childPath (folder name : String) : String :=
  if folder.toList.getLast? = some '/' then folder ++ name else folder ++ "/" ++ name

/-- The files in a folder at most `depth` levels down. The entries of a folder are in the order of
their names, and those of an inner folder follow on its name. -/
def walk : Nat → String → List (String × Entry) → List NamedFile
  | 0, _, _ => []
  | depth + 1, path, children =>
    (children.mergeSort fun a b => a.1 ≤ b.1).flatMap fun (name, e) =>
      match e with
      | .file content => [⟨childPath path name, name, content⟩]
      | .folder inner => walk depth (childPath path name) inner

/-- How deep stems may be in a folder. -/
def stemDepth : Nat := 2

/-- The stem that a file is named for: what is before the last point of the name is that of a stem,
and what is after it is `wav` in letters of any case. -/
def stemOfFileName? (name : String) : Option Stem :=
  let (extension, rest) := name.toList.reverse.span (· ≠ '.')
  if extension.reverse.map Char.toLower = ['w', 'a', 'v'] then
    Stem.ofName? (String.ofList (rest.drop 1).reverse)
  else none

/-- The file as one that holds a stem, if its name says so and the stem is wanted. -/
def NamedFile.asStem? (wanted : Option (List Stem)) (f : NamedFile) : Option StemFile :=
  match stemOfFileName? f.name with
  | some s => if wanted.all (s ∈ ·) then some ⟨s, f.path, f.content⟩ else none
  | none => none

/-- The first file of each stem. -/
def firstOfEach (found : List StemFile) : List StemFile → Traced Event Error (List StemFile)
  | [] => return found
  | f :: files =>
    match found.find? (·.stem = f.stem) with
    | some first => do
      Traced.tell (.stemIgnored f.stem f.path first.path)
      firstOfEach found files
    | none => firstOfEach (found ++ [f]) files

/-- The files of the wanted stems in a folder, or of all stems. -/
def findStems (f : Files) (wanted : Option (List Stem)) (folder : String) :
    Traced Event Error (List StemFile) :=
  match f.folder? folder with
  | none => Traced.fail (.fileNotFound folder)
  | some children => firstOfEach [] ((walk stemDepth folder children).filterMap (·.asStem? wanted))

/-- The stems in files. -/
def readStems (stems : StemMap Buffer) : List StemFile → Traced Event Error (StemMap Buffer)
  | [] => return stems
  | f :: files => do
    Traced.tell (.stemLoading f.stem f.path)
    let b ← Traced.ofExcept (Wave.decode f.path f.content)
    readStems (stems.insert f.stem b) files

/-- The wanted stems in a folder, or all stems. -/
def loadStems (f : Files) (wanted : Option (List Stem)) (folder : String) :
    Traced Event Error (StemMap Buffer) := do
  let stems ← readStems ∅ (← findStems f wanted folder)
  Traced.tell (.stemsLoaded stems.stems folder)
  return stems

end Remix
