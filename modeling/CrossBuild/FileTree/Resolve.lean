import CrossBuild.FileTree.Basic

/-!
What a path leads to in a tree of files. A path is walked step by step; a link on the way is replaced
by the steps of its target, at most forty times.
-/

namespace CrossBuild

/-- One step along a path. -/
inductive Step where
  | here
  | up
  | into (name : String)
  deriving DecidableEq, Repr

namespace FileTree

/-- The longest name in bytes, and the longest path. -/
def longestName : Nat := 255

def longestPath : Nat := 4095

def linkLimit : Nat := 40

def stepOf (piece : List Char) : Step :=
  if piece == ['.', '.'] then .up else .into (String.ofList piece)

/-- The steps of the pieces between slashes. A slash at the end asks for a directory. -/
def stepsOf (path : String) : List Step :=
  let pieces := Text.pieces (· == '/') path.toList
  let named := (pieces.filter (fun piece => !Path.isIdle piece)).map stepOf
  if pieces.getLast?.any Path.isIdle then named ++ [.here] else named

/-- Where a path ends: at something, or at a name that its directory does not have. -/
inductive Spot where
  | taken (place : Place)
  | free (parent : Place) (name : String)
  deriving DecidableEq, Repr

/-- Walks steps from a place. Links that have to be followed are left to `onLink`, which gets the place
of the link's directory and the steps from there. -/
def walk (t : FileTree) (followLast : Bool) (onLink : Place → List Step → Except FileFault Spot) :
    Place → List Step → Except FileFault Spot
  | place, [] => .ok (.taken place)
  | place, step :: rest =>
    match t.checkDirectory place searchBit with
    | .error fault => .error fault
    | .ok () =>
      match step with
      | .here => walk t followLast onLink place rest
      | .up => walk t followLast onLink place.dropLast rest
      | .into name =>
        if name.utf8ByteSize > longestName then .error .nameTooLong
        else
          let next := place ++ [name]
          match t.get? next with
          | none => if rest.isEmpty then .ok (.free place name) else .error .notFound
          | some (.link target) =>
            if rest.isEmpty && !followLast then .ok (.taken next)
            else onLink (if Path.isAbsolute target then [] else place) (stepsOf target ++ rest)
          | some _ => walk t followLast onLink next rest

/-- Walks steps with a limit on the number of links. -/
def walkLinks (t : FileTree) (followLast : Bool) : Nat → Place → List Step → Except FileFault Spot
  | 0, _, _ => .error .tooManyLinks
  | limit + 1, place, steps => walk t followLast (walkLinks t followLast limit) place steps

/-- A path that can be asked for at all. -/
def checkPath (path : String) : Except FileFault Unit :=
  if path.toList.contains '\x00' then .error .badName
  else if path.utf8ByteSize > longestPath then .error .nameTooLong
  else if path.isEmpty then .error .notFound
  else .ok ()

/-- Where steps lead from the place at which a path starts. -/
def spotOfSteps (t : FileTree) (followLast : Bool) (path : String) (steps : List Step) :
    Except FileFault Spot :=
  walkLinks t followLast (linkLimit + 1) (if Path.isAbsolute path then [] else t.current) steps

/-- Where a path leads. A link at its end is followed or stands for itself. -/
def spot (t : FileTree) (followLast : Bool) (path : String) : Except FileFault Spot := do
  checkPath path
  t.spotOfSteps followLast path (stepsOf path)

/-- The place that a path leads to through all links. -/
def place (t : FileTree) (path : String) : Except FileFault Place := do
  match ← t.spot true path with
  | .taken place => return place
  | .free _ _ => throw .notFound

/-- What a path leads to through all links. -/
def node (t : FileTree) (path : String) : Except FileFault FileNode := do
  match t.get? (← t.place path) with
  | some node => return node
  | none => throw .notFound

/-- When what a path leads to was modified: a file when it was written, a directory when its entries changed. -/
def modified (t : FileTree) (path : String) : Except FileFault Instant := do
  let place ← t.place path
  match t.get? place with
  | some (.file f) => return f.modified
  | some _ => return t.changedAt place
  | none => throw .notFound

/-- The file that a path leads to. -/
def file (t : FileTree) (path : String) : Except FileFault File := do
  match ← t.node path with
  | .file f => return f
  | .directory _ => throw .isDirectory
  | .link _ => throw .tooManyLinks

def isFile (t : FileTree) (path : String) : Bool :=
  match t.file path with
  | .ok _ => true
  | .error _ => false

def isDirectory (t : FileTree) (path : String) : Bool :=
  match t.node path with
  | .ok (.directory _) => true
  | _ => false

/-- Whether a path leads to a directory whose permissions let its entries be listed. -/
def canList (t : FileTree) (path : String) : Bool :=
  match t.node path with
  | .ok (.directory mode) => allows mode readBit
  | _ => false

/-- Whether a path leads to anything. -/
def leadsToAny (t : FileTree) (path : String) : Bool :=
  match t.node path with
  | .ok _ => true
  | .error _ => false

/-- What a file holds, if its permissions let it be read. -/
def read (t : FileTree) (path : String) : Except FileFault ByteArray := do
  let f ← t.file path
  if allows f.mode readBit then return f.data else throw .denied

/-- The text that a file holds. -/
def readText (t : FileTree) (path : String) : Except FileFault String := do
  match String.fromUTF8? (← t.read path) with
  | some text => return text
  | none => throw .notText

end FileTree

end CrossBuild
