import CrossBuild.FileTree.Resolve
import CrossBuild.Settings.Reader

/-!
Settings from a file.
-/

namespace CrossBuild.Settings

/-- The file that is read where none is named. -/
def standardFile : String := ".pipegen.yml"

/-- Settings from a file. They remember the file, so that generated jobs can name it too. -/
def load (files : FileTree) (path : String) : Except SettingsError Settings := do
  match files.readText path with
  | .error _ => throw .unreadable
  | .ok text => return { ← ofText text with source := some path }

/-- Settings from the file that is named, or else from the standard file, if there is one. -/
def find (files : FileTree) : Option String → Except SettingsError Settings
  | some path => load files path
  | none => if files.isFile standardFile then load files standardFile else .ok standard

end CrossBuild.Settings
