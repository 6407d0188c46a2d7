import CrossBuild.Archive.Error
import CrossBuild.Store.Basic

/-!
Why bundles cannot be handed from job to job.
-/

namespace CrossBuild

inductive HandoffError where
  | store (error : StoreError)
  | archive (error : ArchiveError)
  /-- The marker of the job's start was never made. -/
  | markerMissing (path : String)
  | artifactMissing (path : String)
  | file (fault : FileFault)
  /-- A directory cannot be walked. -/
  | walk
  deriving DecidableEq, Repr

def HandoffError.message : HandoffError → String
  | .store e => e.message
  | .archive e => e.message
  | .markerMissing path => "timestamp marker not found: " ++ path
  | .artifactMissing path => "artifact path not found: " ++ path
  | .file _ => "IO error"
  | .walk => "walk error"

namespace Handoff

/-- The directory of a workspace that fetched archives pass through. -/
def stagingName : String := ".pipegen-staging"

/-- The file that is made right before a job's build command. -/
def startMarker : String := ".pipegen-timestamp"

/-- The file that is made right after a build command that succeeds. -/
def successMarker : String := ".pipegen-success"

/-- A path that cannot lead out of where it starts. -/
def safePath (path : String) : Except HandoffError String :=
  if Path.isPlain path then .ok path else .error (.archive (.unsafeEntry path))

end Handoff

end CrossBuild
