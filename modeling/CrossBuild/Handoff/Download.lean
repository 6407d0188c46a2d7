import CrossBuild.Archive.Unpack
import CrossBuild.Handoff.Error

/-!
Downloads: all bundles that some sources select are unpacked into a workspace, one after another, so
that of a path in several bundles the last one stays. Bundles of failed jobs are never taken.
-/

namespace CrossBuild

structure DownloadRequest where
  workspace : String
  /-- Where to take bundles from, in order. -/
  sources : List BundleSource
  /-- What keys have to match, for all sources. -/
  includes : List String
  deriving DecidableEq, Repr

structure DownloadReport where
  /-- The keys of the bundles that were unpacked, in order. -/
  bundles : List String
  /-- The number of files that they hold. -/
  files : Nat
  deriving DecidableEq, Repr

namespace Handoff

variable {σ : Type}

/-- The keys that a source selects. -/
def sourceFilter (includes : List String) (source : BundleSource) : KeyFilter :=
  KeyFilter.excludingFailed ⟨includes, source.excludes⟩

/-- Unpacks a bundle by way of a file in the staging directory and tells its number of files. -/
def unpackBundle (workspace key : String) (data : ByteArray) : Task σ HandoffError Nat := do
  let path := Path.join (Path.join workspace stagingName) (← Task.ofExcept id (safePath key))
  Task.makeDirectories .file ((Path.parent? path).getD "")
  Task.changeFiles .file (·.write path data ·)
  let archive ← Task.ofExcept .file ((← get).files.read path)
  let count ← Task.widen .archive (Archive.unpack workspace archive)
  Task.changeFiles .file (·.remove path ·)
  return count

def unpackBundles (workspace : String) : List (String × ByteArray) → Task σ HandoffError DownloadReport
  | [] => return ⟨[], 0⟩
  | (key, data) :: rest => do
    let count ← unpackBundle workspace key data
    let report ← unpackBundles workspace rest
    return ⟨key :: report.bundles, count + report.files⟩

def takeSources (store : Store σ) (request : DownloadRequest) :
    List BundleSource → Task σ HandoffError DownloadReport
  | [] => return ⟨[], 0⟩
  | source :: rest => do
    let bundles ← Task.widen .store (store.get source.start (sourceFilter request.includes source))
    let report ← unpackBundles request.workspace bundles
    let others ← takeSources store request rest
    return ⟨report.bundles ++ others.bundles, report.files + others.files⟩

/-- Removes a directory if there is nothing in it. -/
def removeIfEmpty (t : FileTree) (place : Place) (now : Instant) : Except FileFault FileTree :=
  if (t.children place).isEmpty then t.removeEmpty place now else .ok t

/-- Of some places, those below a directory. -/
def placesBelow (directory : Place) (places : List Place) : List Place :=
  places.filter (directory.isPrefixOf ·)

/-- Of some places, those that are not below a directory. -/
def placesBeside (directory : Place) (places : List Place) : List Place :=
  places.filter (!directory.isPrefixOf ·)

/-- Walks directories, each of which comes before those below it. One that cannot be listed ends the walk.
Once all below a directory has been walked, it is removed if there is nothing in it then. What is removed
before a failure stays. -/
def prune (canList : Place → Bool) (now : Instant) (t : FileTree) : List Place → FileTree × Option HandoffError
  | [] => (t, none)
  | directory :: rest =>
    if canList directory then
      match prune canList now t (placesBelow directory rest) with
      | (t, some error) => (t, some error)
      | (t, none) =>
        match removeIfEmpty t directory now with
        | .ok t => prune canList now t (placesBeside directory rest)
        | .error fault => (t, some (.file fault))
    else (t, some .walk)
termination_by directories => directories.length
decreasing_by
  all_goals exact Nat.lt_succ_of_le (List.length_filter_le _ _)

/-- The directories below a place, as the names that lead there, each before what is below it. -/
def directoriesBelow (t : FileTree) (place : Place) : List Place :=
  (t.below place).filterMap fun (names, node) =>
    match node with
    | .directory _ => some names
    | _ => none

/-- The path of a directory at or below the one that a path leads to. -/
def walkedPath (path : String) (place directory : Place) : String :=
  match directory.drop place.length with
  | [] => path
  | names => Path.join path (Text.join "/" names)

/-- Prunes the directories below the one that a path leads to, and those of `top` with them. -/
def pruneWalked (path : String) (place : Place) (top : List Place) : Task σ HandoffError Unit := do
  let machine ← get
  let directories := top ++ (directoriesBelow machine.files place).map (place ++ ·)
  -- what goes during the walk is on the way to nothing that is still to be listed
  let canList := fun directory => machine.files.canList (walkedPath path place directory)
  let (files, error?) := prune canList machine.now machine.files directories
  set { machine with files }
  match error? with
  | none => pure ()
  | some error => throw error

/-- Removes the staging directory, but for files that somebody left in it. -/
def pruneStaging (path : String) : Task σ HandoffError Unit := do
  let machine ← get
  match machine.files.spot false path with
  | .ok (.taken place) =>
    match machine.files.get? place with
    | some (.directory _) => pruneWalked path place [place]
    | some (.link _) =>
      -- a link that the walk starts at is followed, but is no directory that could go
      match machine.files.place path with
      | .ok target =>
        if !machine.files.isDirectory path then pure ()
        else if machine.files.canList path then pruneWalked path target []
        else throw .walk
      | .error _ => throw .walk
    | _ => pure ()
  | _ => throw .walk

/-- Takes all bundles that a request selects into its workspace. -/
def download (store : Store σ) (request : DownloadRequest) : Task σ HandoffError DownloadReport := do
  let staging := Path.join request.workspace stagingName
  Task.makeDirectories .file staging
  let report ← takeSources store request request.sources
  pruneStaging staging
  return report

end Handoff

end CrossBuild
