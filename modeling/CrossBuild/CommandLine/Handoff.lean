import CrossBuild.CommandLine.Failure
import CrossBuild.CommandLine.Invocation
import CrossBuild.Handoff.Download
import CrossBuild.Handoff.Upload
import CrossBuild.Store.Bucket
import CrossBuild.Store.Directory

/-!
Handing bundles over: the store that the options name, and what is asked of it.
-/

namespace CrossBuild.CommandLine

variable {σ : Type}

/-- The program that reads and writes buckets. -/
def bucketClient : String := "aws"

/-- The file that bundles pass through on their way to a bucket and back. -/
def scratchFile : String := "/tmp/pipegen-bundle"

namespace StoreOptions

/-- Opens the store. -/
def openStore (store : StoreOptions) (exec : Executor (Machine σ)) : Task σ Failure (Store σ) :=
  match store.storeDir, store.bucket with
  | some dir, _ => do
    let directory : Directory := ⟨dir, .standard⟩
    Task.widen (.openStore dir) directory.setUp
    return directory.store
  | none, some name => return Bucket.store ⟨name, bucketClient, scratchFile⟩ exec
  | none, none => throw .noStore

/-- Where bundles come from: first the parent pipeline, if there is another one, so that what its own
pipeline made wins. Only its own bundles are excluded. -/
def sources (store : StoreOptions) (options : DownloadOptions) : List BundleSource :=
  let parent := (options.parent.filter (· != store.pipelineId)).toList
  parent.map (fun id => ⟨BundleKey.pipelineStart id, []⟩) ++
    [⟨BundleKey.pipelineStart store.pipelineId, options.excludes⟩]

def downloadRequest (store : StoreOptions) (options : DownloadOptions) : DownloadRequest :=
  ⟨store.workspace, store.sources options, options.includes⟩

/-- The files that an upload packs. A failed job may have ended before its marker was made, and then
all its files count. -/
def selection (files : FileTree) (store : StoreOptions) (options : UploadOptions) : UploadSelection :=
  match options.path with
  | some path => .path path
  | none =>
    let marker := options.marker.getD Handoff.startMarker
    if options.failed && !files.leadsToAny (Path.join store.workspace marker) then .all
    else .modifiedSince marker

/-- The key that a job's bundle is stored under. -/
def bundleKey (store : StoreOptions) (options : UploadOptions) : Except Failure BundleKey := do
  let key ← (BundleKey.ofParts store.pipelineId options.stage options.job).mapError
    fun (part, fault) => .key part fault
  return if options.failed then key.asFailed else key

def uploadRequest (files : FileTree) (store : StoreOptions) (options : UploadOptions) :
    Except Failure UploadRequest := do
  let key ← store.bundleKey options
  return ⟨store.workspace, key, store.selection files options, options.tag.map BundleTag.ofName⟩

end StoreOptions

/-- Takes bundles into the workspace. -/
def download (exec : Executor (Machine σ)) (store : StoreOptions) (options : DownloadOptions) :
    Task σ Failure DownloadReport := do
  let opened ← store.openStore exec
  Task.widen .download (Handoff.download opened (store.downloadRequest options))

/-- Stores the job's files. -/
def upload (exec : Executor (Machine σ)) (store : StoreOptions) (options : UploadOptions) :
    Task σ Failure UploadReport := do
  let opened ← store.openStore exec
  let request ← Task.ofExcept id (store.uploadRequest (← get).files options)
  Task.widen (.upload options.job) (Handoff.upload opened request)

end CrossBuild.CommandLine
