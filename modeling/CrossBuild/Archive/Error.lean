import CrossBuild.FileTree.Basic

/-!
Why archives cannot be packed or unpacked.
-/

namespace CrossBuild

inductive ArchiveError where
  /-- A path that could lead out of where an archive is unpacked, or that nothing is unpacked for. -/
  | unsafeEntry (path : String)
  | file (fault : FileFault)
  /-- The archive cannot be read to its end. -/
  | unreadable
  deriving DecidableEq, Repr

def ArchiveError.message : ArchiveError → String
  | .unsafeEntry path => "refusing unsafe archive entry: " ++ path
  | .file _ | .unreadable => "IO error"

end CrossBuild
