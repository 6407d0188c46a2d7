import CrossBuild.Calendar.Date
import CrossBuild.Path
import CrossBuild.SortedMap

/-!
Trees of files. A place is the list of names that leads to it from the root, and a tree says what
stands at each place. Places are kept in order, name by name, so a directory comes right before what
is below it and the entries of one directory are sorted by name.
-/

namespace CrossBuild

/-- The names from the root to a place. -/
abbrev Place := List String

/-- Bytes are compared one by one. -/
instance instDecidableEqBytes : DecidableEq ByteArray := ByteArray.instDecidableEq

structure File where
  data : ByteArray
  modified : Instant
  /-- The permission bits. -/
  mode : Nat
  deriving DecidableEq

/-- What stands at a place. -/
inductive FileNode where
  /-- A directory with its permission bits. -/
  | directory (mode : Nat)
  | file (f : File)
  /-- A link to a path, which starts at the link's own directory. -/
  | link (target : String)
  deriving DecidableEq

/-- Why a file cannot be used. -/
inductive FileFault where
  | notFound
  | notDirectory
  | isDirectory
  | denied
  | occupied
  | tooManyLinks
  | nameTooLong
  | badName
  | notText
  deriving DecidableEq, Repr

/-- A tree with the directory that relative paths start at. -/
structure FileTree where
  nodes : SortedMap Place FileNode
  current : Place
  /-- When the entries of directories last changed. Those of a directory that is not here have not changed
  since the start of 1970. -/
  changes : SortedMap Place Instant := ∅
  deriving DecidableEq

namespace FileTree

/-- A tree with nothing in it. -/
def empty : FileTree := ⟨∅, [], ∅⟩

instance : Inhabited FileTree := ⟨empty⟩

/-! Permissions are those of the owner, in the bits for reading, writing and searching. -/

def readBit : Nat := 0o400

def writeBit : Nat := 0o200

def searchBit : Nat := 0o100

/-- Whether permissions have a bit set. -/
def allows (mode bit : Nat) : Bool := mode &&& bit != 0

/-- The permissions of a directory that is made without any given. -/
def directoryMode : Nat := 0o755

/-- The permissions of a file that is made without any given. -/
def fileMode : Nat := 0o644

/-- The permissions of the root, in which nothing can be made. -/
def rootMode : Nat := 0o555

/-- What stands at a place. The root is a directory. -/
def get? (t : FileTree) (place : Place) : Option FileNode :=
  if place.isEmpty then some (.directory rootMode) else t.nodes.get? place

def set (t : FileTree) (place : Place) (node : FileNode) : FileTree :=
  { t with nodes := t.nodes.insert place node }

/-- The tree without what stands at a place. -/
def erase (t : FileTree) (place : Place) : FileTree := { t with nodes := t.nodes.erase place }

/-- When the entries of a directory last changed. -/
def changedAt (t : FileTree) (place : Place) : Instant := (t.changes.get? place).getD ⟨0, 0⟩

/-- The tree once entries of a directory have changed. -/
def changed (t : FileTree) (place : Place) (now : Instant) : FileTree :=
  { t with changes := t.changes.insert place now }

/-- That a place is a directory whose permissions have a bit set. -/
def checkDirectory (t : FileTree) (place : Place) (bit : Nat) : Except FileFault Unit :=
  match t.get? place with
  | some (.directory mode) => if allows mode bit then .ok () else .error .denied
  | _ => .error .notDirectory

/-- What is below a place, with the names that lead there from it. -/
def below (t : FileTree) (place : Place) : List (Place × FileNode) :=
  t.nodes.toList.filterMap fun (p, node) =>
    if place.isPrefixOf p && p.length > place.length then some (p.drop place.length, node) else none

/-- The entries of a directory. -/
def children (t : FileTree) (place : Place) : List (String × FileNode) :=
  (t.below place).filterMap fun (names, node) =>
    match names with
    | [name] => some (name, node)
    | _ => none

/-- The same tree seen from another directory. -/
def seenFrom (t : FileTree) (place : Place) : FileTree := { t with current := place }

end FileTree

end CrossBuild
