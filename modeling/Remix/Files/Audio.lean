import Remix.Sha256
import Remix.Wave.Import

/-!
# Audio files

Buffers are read from wave files and written to them. What is written can be recognised by its
digest.
-/

namespace Remix.Files

/-- The buffer in the file that a path leads to. -/
def importAudio (f : Files) (path : String) : Except Error Buffer :=
  if f.contains path then
    match f.read path with
    | .ok bytes => Wave.decode path bytes
    | .error fault =>
      .error (.invalidAudio s!"Failed to open WAV file {path}: {fault.message}"
        (some fault.message))
  else .error (.fileNotFound path)

/-- The tree with a buffer written at a path, with samples of `depth` bits. -/
def exportAudio (f : Files) (path : String) (depth : Nat) (b : Buffer) : Except Error Files := do
  let some d := Wave.Depth.ofBits? depth
    | throw (.unsupportedFormat s!"{depth}-bit audio (only 16, 24, 32 supported)")
  let _ ← (f.target path).mapError .ofFileFault
  let bytes ← (Wave.encode d b).mapError .ofUnwritable
  (f.write path bytes).mapError .ofFileFault

/-- The digest of the file that a path leads to. -/
def checksum (f : Files) (path : String) : Except Error String :=
  ((f.read path).map fun bytes => hexText (Sha256.hash bytes)).mapError .ofFileFault

end Remix.Files
