import CrossBuild.Archive.Digest
import CrossBuild.Archive.Pack
import CrossBuild.Handoff.Selection

/-!
Uploads: the selected files of a workspace are packed and stored under the job's key.
-/

namespace CrossBuild

structure UploadRequest where
  workspace : String
  key : BundleKey
  selection : UploadSelection
  tag : Option BundleTag
  deriving DecidableEq, Repr

structure UploadReport where
  key : String
  /-- The number of files that were packed. -/
  files : Nat
  /-- The size of the archive. -/
  bytes : Nat
  /-- The digest of the archive. -/
  digest : String
  expiresAt : Option Instant
  deriving DecidableEq, Repr

namespace Handoff

variable {σ : Type}

/-- Stores the selected files of a workspace. -/
def upload (store : Store σ) (request : UploadRequest) : Task σ HandoffError UploadReport := do
  let machine ← get
  let paths ← Task.ofExcept id (selected machine.files request.workspace request.selection)
  let data ← Task.ofExcept .archive (Archive.pack machine.files request.workspace paths)
  let expiresAt ← Task.widen .store (store.put request.key.text data request.tag)
  return ⟨request.key.text, paths.length, data.size, Archive.Digest.sha256 data, expiresAt⟩

end Handoff

end CrossBuild
