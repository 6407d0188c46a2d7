import CrossBuild.Handoff.Error

/-!
The files of a workspace that an upload packs. Names that belong to the handoff itself are passed over
right below the directory that is walked, and links everywhere.
-/

namespace CrossBuild

/-- Which files an upload packs. -/
inductive UploadSelection where
  /-- Those modified after a marker. -/
  | modifiedSince (marker : String)
  /-- One file, or all below one directory. -/
  | path (path : String)
  | all
  deriving DecidableEq, Repr

namespace Handoff

/-- Names that are passed over where a walk starts. -/
def ignoredNames : List String := [stagingName, ".git", startMarker, successMarker]

/-- A file that a walk comes by: its path from where the walk starts, and the file. -/
abbrev Found := String × File

/-- A directory that stands in the way of a walk, as its entries cannot be listed. -/
def isClosed (t : FileTree) (path : String) : FileNode → Bool
  | .directory _ => !t.canList path
  | _ => false

/-- All that a walk from a directory comes by, in the order of names, with what it passes over left
out. -/
def walk (t : FileTree) (root : String) : Except HandoffError (List (Place × FileNode)) :=
  match t.place root with
  | .error _ => .error .walk
  | .ok place =>
    let found := (t.below place).filter fun (names, _) => !names.head?.any ignoredNames.contains
    if (t.get? place).any (isClosed t root) ||
        found.any (fun (names, node) => isClosed t (Path.join root (Text.join "/" names)) node) then .error .walk
    else .ok found

/-- The files of a walk with their paths. -/
def walkFiles (t : FileTree) (root : String) : Except HandoffError (List Found) := do
  return (← walk t root).filterMap fun (names, node) =>
    match node with
    | .file f => some (Path.join root (Text.join "/" names), f)
    | _ => none

/-- The files of a walk, if each of them can be asked when it was modified. -/
def datedFiles (t : FileTree) (root : String) : Except HandoffError (List Found) := do
  let files ← walkFiles t root
  if files.all fun (path, _) => t.isFile path then return files else throw .walk

/-- A path of a walk as it is below the workspace. -/
def inWorkspace (workspace path : String) : Except HandoffError String :=
  match Path.below? workspace path with
  | some rest => .ok rest
  | none => .error (.archive (.unsafeEntry path))

/-- When what a marker's path leads to was modified. -/
def markerTime (t : FileTree) (path : String) : Except HandoffError Instant :=
  match t.modified path with
  | .ok time => .ok time
  | .error .notFound => .error (.markerMissing path)
  | .error fault => .error (.file fault)

def modifiedSince (t : FileTree) (workspace marker : String) : Except HandoffError (List String) := do
  let markerPath := Path.join workspace marker
  let time ← markerTime t markerPath
  let files ← datedFiles t workspace
  (files.filter fun (path, f) => !Path.same path markerPath && f.modified.isAfter time).mapM fun (path, _) =>
    inWorkspace workspace path

/-- A path that names an artifact, as it is below the workspace. -/
def artifactPath (workspace path : String) : Except HandoffError String :=
  if Path.isAbsolute path then
    match Path.below? workspace path with
    | some rest => .ok rest
    | none => .error (.artifactMissing path)
  else safePath path

def namedFiles (t : FileTree) (workspace path : String) : Except HandoffError (List String) := do
  let rest ← artifactPath workspace path
  let full := Path.join workspace rest
  if t.isFile full then return [rest]
  else if !t.isDirectory full then throw (.artifactMissing full)
  else (← walkFiles t full).mapM fun (path, _) => inWorkspace workspace path

/-- The paths of the selected files below the workspace. -/
def selected (t : FileTree) (workspace : String) : UploadSelection → Except HandoffError (List String)
  | .modifiedSince marker => modifiedSince t workspace marker
  | .path path => namedFiles t workspace path
  | .all => do (← walkFiles t workspace).mapM fun (path, _) => inWorkspace workspace path

end Handoff

end CrossBuild
