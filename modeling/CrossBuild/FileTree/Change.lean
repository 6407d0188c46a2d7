import CrossBuild.FileTree.Resolve

/-!
Changes to a tree of files. Each either gives the changed tree or says why there is none. A directory
is dated by the changes of its entries: one is added, put in place of another or removed.
-/

namespace CrossBuild.FileTree

/-- The tree with a node under a new name in a directory. -/
def add (t : FileTree) (parent : Place) (name : String) (node : FileNode) (now : Instant) :
    Except FileFault FileTree := do
  t.checkDirectory parent writeBit
  return (t.set (parent ++ [name]) node).changed parent now

/-- That a place holds a file or a link and can be given to another one. -/
def checkReplaceable (t : FileTree) (place : Place) : Except FileFault Unit := do
  match t.get? place with
  | some (.directory _) => throw .isDirectory
  | _ => t.checkDirectory place.dropLast writeBit

/-- Sets a file to one made from what is there. -/
def update (t : FileTree) (path : String) (f : Option File → File) (now : Instant) : Except FileFault FileTree := do
  match ← t.spot true path with
  | .free parent name => t.add parent name (.file (f none)) now
  | .taken place =>
    match t.get? place with
    | some (.file old) => if allows old.mode writeBit then return t.set place (.file (f (some old))) else throw .denied
    | _ => throw .isDirectory

/-- Sets what a file holds. A file that is there keeps its permissions. -/
def write (t : FileTree) (path : String) (data : ByteArray) (now : Instant) : Except FileFault FileTree :=
  t.update path (fun old => ⟨data, now, (old.map (·.mode)).getD fileMode⟩) now

/-- Puts a file where nothing else is, or in place of a file or a link. -/
def replace (t : FileTree) (path : String) (f : File) (now : Instant) : Except FileFault FileTree := do
  match ← t.spot false path with
  | .free parent name => t.add parent name (.file f) now
  | .taken place =>
    t.checkReplaceable place
    return (t.set place (.file f)).changed place.dropLast now

/-- Removes a file or a link. -/
def remove (t : FileTree) (path : String) (now : Instant) : Except FileFault FileTree := do
  match ← t.spot false path with
  | .free _ _ => throw .notFound
  | .taken place =>
    t.checkReplaceable place
    return (t.erase place).changed place.dropLast now

def addLink (t : FileTree) (path target : String) (now : Instant) : Except FileFault FileTree := do
  match ← t.spot false path with
  | .free parent name => t.add parent name (.link target) now
  | .taken _ => throw .occupied

/-- The path without slashes at its end. -/
def withoutEndSlashes (path : String) : String :=
  String.ofList (path.toList.reverse.dropWhile (· == '/')).reverse

/-- Makes one directory, if there is nothing. -/
def makeDirectory (t : FileTree) (path : String) (now : Instant) : Except FileFault FileTree := do
  match ← t.spotOfSteps false path (stepsOf (withoutEndSlashes path)) with
  | .free parent name => return (← t.add parent name (.directory directoryMode) now).changed (parent ++ [name]) now
  | .taken _ => throw .occupied

/-- A directory at the path, made now or there before. -/
def ensureDirectory (t : FileTree) (path : String) (now : Instant) : Except FileFault FileTree :=
  match t.makeDirectory path now with
  | .ok t => .ok t
  | .error fault => if t.isDirectory path then .ok t else .error fault

/-- Makes directories in order. What is made before a failure stays. -/
def ensureEach (t : FileTree) (now : Instant) : List String → FileTree × Option FileFault
  | [] => (t, none)
  | path :: rest =>
    match t.ensureDirectory path now with
    | .ok t => ensureEach t now rest
    | .error fault => (t, some fault)

/-- Makes a directory and those above it. -/
def makeDirectories (t : FileTree) (path : String) (now : Instant) : FileTree × Option FileFault :=
  if path.isEmpty then (t, none)
  else
    match checkPath path with
    | .error fault => (t, some fault)
    | .ok () => t.ensureEach now (Path.ancestors path ++ [path])

/-- Sets the permissions of a directory. -/
def setDirectoryMode (t : FileTree) (path : String) (mode : Nat) : Except FileFault FileTree := do
  return t.set (← t.place path) (.directory mode)

/-- Removes a directory that holds nothing. -/
def removeEmpty (t : FileTree) (place : Place) (now : Instant) : Except FileFault FileTree := do
  t.checkDirectory place.dropLast writeBit
  if (t.children place).isEmpty then return (t.erase place).changed place.dropLast now else throw .occupied

end CrossBuild.FileTree
