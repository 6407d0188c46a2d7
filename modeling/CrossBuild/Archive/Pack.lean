import CrossBuild.Archive.Error
import CrossBuild.Archive.Writer
import CrossBuild.Machine

/-!
Packing files of a workspace. In an archive all paths are below one name, whatever the workspace is
called.
-/

namespace CrossBuild.Archive

variable {σ : Type}

/-- What every path in an archive starts with. -/
def base : String := "workspace"

/-- The part of a name that a header has room for, in whole characters. -/
def fittingStart (name : String) : String :=
  let bytes := name.toUTF8
  let room := (List.range (headerNameSize + 1)).reverse.find? fun n => (bytes.extract 0 n).validateUTF8
  (String.fromUTF8? (bytes.extract 0 (room.getD 0))).getD ""

def isUp : Path.Component → Bool
  | .up => true
  | _ => false

/-- A name as a header shows it: its components with a slash between them, and one at the end if the
name has one. -/
def plainName (name : String) : String :=
  let parts := (Path.components name).filterMap fun c => match c with | .name s => some s | _ => none
  Text.join "/" parts ++ (if name.toList.getLast? == some '/' then "/" else "")

/-- A name as an archive stores it. Names must be relative and lead nowhere up; of a name that is too
long for a header only the part is looked at that a header has room for, and whether its last
component is cut off there is not known. -/
def storedName (name : String) : Except ArchiveError String :=
  let plain := plainName name
  let isClean := !Path.isAbsolute name && !(Path.components name).any isUp && !name.toList.contains '\x00'
  if isClean && plain.utf8ByteSize ≤ headerNameSize then .ok plain
  else if name.utf8ByteSize < headerNameSize then .error (.file .badName)
  else
    let start := fittingStart name
    if Path.isAbsolute start || ((Path.components start).dropLast).any isUp || start.toList.contains '\x00' then
      .error (.file .badName)
    else .ok name

/-- The entry for one file, named by its path in the workspace. Links are followed. -/
def entryOf (files : FileTree) (workspace path : String) : Except ArchiveError Entry := do
  let source := Path.join workspace path
  let wrap := fun {α : Type} (r : Except FileFault α) => r.mapError ArchiveError.file
  match ← wrap (files.node source) with
  | .file f =>
    let data ← wrap (files.read source)
    return ⟨← storedName (Path.join base path), .file, data, some f.modified.seconds, some f.mode⟩
  | .directory mode => return ⟨← storedName (Path.join base path), .directory, .empty, none, some mode⟩
  | .link _ => throw (.file .tooManyLinks)

/-- The entries for some files. -/
def entriesOf (files : FileTree) (workspace : String) (paths : List String) : Except ArchiveError (List Entry) :=
  paths.mapM (entryOf files workspace)

/-- An archive of some files of a workspace. -/
def pack (files : FileTree) (workspace : String) (paths : List String) : Except ArchiveError ByteArray := do
  return encode (← entriesOf files workspace paths)

end CrossBuild.Archive
