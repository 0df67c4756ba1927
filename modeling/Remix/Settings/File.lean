import Remix.Settings.Text

/-!
# Settings from files

Settings are read as text and have to satisfy every requirement.
-/

namespace Remix.Settings

/-- The settings in the file that a path leads to. -/
def load (f : Files) (path : String) : Except Error Settings :=
  if f.contains path then do
    let text ← (f.readText path).mapError .ofFileFault
    let some s := ofText? text
      | throw (.unreadableSettings s!"{path} does not hold settings")
    s.validate
  else .error (.fileNotFound path)

end Remix.Settings
