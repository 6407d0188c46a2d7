import CrossBuild.CommandLine.Perform
import CrossBuild.Shell.Run

/-!
The program. It reads the files that a call can be about into a tree, makes the call on the tree and
writes back what has changed. Commands run on the tree too. The system does not tell permissions, so
every file that is read counts as one that can be run.
-/

namespace CrossBuild

/-- A place as the system's path to it. -/
def systemPath (place : Place) := IO.FS.DirEntry.path ⟨"/", Text.join "/" place⟩

/-- The place that a path means where no links are on the way. -/
def placeWithoutLinks (current : Place) (path : String) : Place :=
  (Path.components path).foldl (fun place component =>
    match component with
    | .root => []
    | .here => place
    | .up => place.dropLast
    | .name name => place ++ [name]) current

def instantOf (time : IO.FS.SystemTime) : Instant := ⟨time.sec, time.nsec.toNat⟩

/-- The permissions that a file counts as having. -/
def assumedMode : Nat := 0o755

/-- Reads the file at a place, if it can be read. -/
def readFileAt (tree : FileTree) (place : Place) : IO FileTree := do
  try
    let modified := instantOf (← (systemPath place).metadata).modified
    return tree.set place (.file ⟨← IO.FS.readBinFile (systemPath place), modified, assumedMode⟩)
  catch _ => return tree

/-- Reads the link at a place, if it leads anywhere. -/
def readLinkAt (tree : FileTree) (place : Place) : IO FileTree := do
  try
    return tree.set place (.link (← IO.FS.realPath (systemPath place)).toString)
  catch _ => return tree

/-- Reads when the entries of a directory last changed, if the system tells. -/
def readChange (tree : FileTree) (place : Place) : IO FileTree := do
  try
    return tree.changed place (instantOf (← (systemPath place).metadata).modified)
  catch _ => return tree

/-- Reads the directory at a place, without its entries. -/
def readDirectoryAt (tree : FileTree) (place : Place) : IO FileTree :=
  readChange (tree.set place (.directory FileTree.directoryMode)) place

/-- Reads all that is below a place. -/
partial def readBelow (tree : FileTree) (place : Place) : IO FileTree := do
  let entries ← try (systemPath place).readDir catch _ => pure #[]
  let mut tree ← readDirectoryAt tree place
  for entry in entries do
    let below := place ++ [entry.fileName]
    match (← entry.path.symlinkMetadata).type with
    | .dir => tree ← readBelow tree below
    | .file => tree ← readFileAt tree below
    | .symlink => tree ← readLinkAt tree below
    | .other => pure ()
  return tree

/-- Reads what is at a place, with the directories above it. -/
def readPlace (tree : FileTree) (place : Place) : IO FileTree := do
  let mut tree := tree
  for n in List.range place.length do
    let above := place.take n
    if above != [] && (tree.get? above).isNone then
      if ← (systemPath above).isDir then
        tree ← readDirectoryAt tree above
  let path := systemPath place
  if (tree.get? place).isSome then return tree
  else if ← path.isDir then readBelow tree place
  else if ← path.pathExists then readFileAt tree place
  else return tree

/-- The permissions that three bits give. -/
def accessRight (bits : Nat) : IO.AccessRight := ⟨bits &&& 4 != 0, bits &&& 2 != 0, bits &&& 1 != 0⟩

def fileRight (mode : Nat) : IO.FileRight :=
  ⟨accessRight (mode / 64), accessRight (mode / 8), accessRight mode⟩

def removeNode (place : Place) : FileNode → IO Unit
  | .directory _ => IO.FS.removeDir (systemPath place)
  | _ => IO.FS.removeFile (systemPath place)

def writeNode (place : Place) : FileNode → IO Unit
  | .directory _ => IO.FS.createDirAll (systemPath place)
  | .file f => do
    IO.FS.writeBinFile (systemPath place) f.data
    IO.setAccessRights (systemPath place) (fileRight f.mode)
  | .link _ => pure ()

/-- Makes the files be as they are in a tree, where they were as in another one. What is below a
directory is removed before it and written after it. -/
def writeBack (before after : FileTree) : IO Unit := do
  for (place, node) in before.nodes.toList.reverse do
    if (after.nodes.get? place).isNone then removeNode place node
  for (place, node) in after.nodes.toList do
    if before.nodes.get? place != some node then writeNode place node

/-- The variables of the environment that a call looks at. -/
def variableNames : List String :=
  [RunVariable.pipelineId, .pipelineSource, .commitRefName, .mergeRequestBranch, .projectNamespace, .commitMessage,
    .platforms, .mergeRequestPlatforms, .parentPipelineId, .defaultHosts].map (·.name) ++
  [CommandLine.Parameter.config, .storeDir, .bucket].filterMap (·.variableName?) ++ ["PATH"]

/-- The paths that a call names. -/
def namedPaths (vars : Run.Variables) (words : List String) : List String :=
  match CommandLine.Reading.ofWords vars words with
  | .ok reading =>
    [.config, .root, .output, .storeDir, .workspace, .marker, .path].filterMap fun p => reading.value? vars p
  | .error _ => []

/-- Reads what is at some paths. -/
def readPaths (tree : FileTree) (current : Place) : List String → IO FileTree
  | [] => return tree
  | path :: paths => do readPaths (← readPlace tree (placeWithoutLinks current path)) current paths

/-- The directory of the projects, as the settings name it. -/
def projectsPath (tree : FileTree) (vars : Run.Variables) (words : List String) : List String :=
  let config := (CommandLine.Reading.ofWords vars words).toOption.bind (·.value? vars .config)
  match Settings.find tree config with
  | .ok settings => [settings.projectsDir]
  | .error _ => []

/-- The present, as the system stamps a file that is made now. -/
def presentTime : IO Instant := do
  let (_, path) ← IO.FS.createTempFile
  let time := instantOf (← path.metadata).modified
  IO.FS.removeFile path
  return time

/-- Makes the call that some words ask for. -/
def callOnSystem (words : List String) : IO UInt32 := do
  let settings ← variableNames.filterMapM fun name => return (← IO.getEnv name).map (name, ·)
  let vars := fun name => (settings.find? (·.1 == name)).map (·.2)
  let current := placeWithoutLinks [] (← IO.currentDir).toString
  let start := (← readDirectoryAt (← readChange .empty []) ["tmp"]).seenFrom current
  let tree ← readPaths start current ("." :: namedPaths vars words)
  let before ← readPaths tree current (projectsPath tree vars words)
  let machine : Machine Unit := ⟨before, ← presentTime, ()⟩
  let (outcome, machine) := CommandLine.call vars (Shell.executor vars none) words machine
  writeBack before machine.files
  IO.print outcome.out
  IO.eprint outcome.err
  return outcome.exitCode.toUInt32

end CrossBuild

def main (words : List String) : IO UInt32 := CrossBuild.callOnSystem words
