import CrossBuild.Archive.Error
import CrossBuild.Archive.Pack
import CrossBuild.Archive.Reader
import CrossBuild.Machine

/-!
Unpacking archives. Entries are taken in order, and the first one that is not safe ends the work: one
whose path is not below the archive's base by plain names, or that stands for anything but a file or
a directory. What was unpacked before it stays.
-/

namespace CrossBuild.Archive

variable {σ : Type}

/-- The path of an entry below the base, if it is safe. -/
def relativePath (path : String) : Except ArchiveError String :=
  match Path.below? base path with
  | some rest => if Path.isPlain rest then .ok rest else .error (.unsafeEntry path)
  | none => .error (.unsafeEntry path)

/-- Times are never those of the very start of 1970, which stands for no time at all. -/
def unpackedTime (seconds : Int) : Instant := ⟨if seconds == 0 then 1 else seconds, 0⟩

/-- The file that an entry stands for. -/
def unpackedFile (e : Entry) (now : Instant) : File :=
  ⟨e.data, (e.modified.map unpackedTime).getD now, e.mode.getD FileTree.fileMode⟩

/-- Writes the data of a file that ends too soon, and nothing else of it. -/
def partialFile (e : Entry) (now : Instant) : File := ⟨e.data, now, FileTree.fileMode⟩

def makeParents (target : String) : Task σ ArchiveError Unit :=
  match Path.parent? target with
  | some parent => Task.makeDirectories .file parent
  | none => pure ()

/-- Makes the directory of an entry that means one by its name. -/
def makeNamedDirectory (target : String) (e : Entry) : Task σ ArchiveError Unit := do
  Task.changeFiles .file (·.ensureDirectory target ·)
  match e.mode with
  | some mode => Task.changeFiles .file fun files _ => files.setDirectoryMode target mode
  | none => pure ()

/-- Unpacks an entry to its target and tells how many files that counts as. -/
def unpackEntry (fileOf : Entry → Instant → File) (dest : String) (e : Entry) : Task σ ArchiveError Nat := do
  let rest ← Task.ofExcept id (relativePath e.path)
  if rest.isEmpty then return 0
  let target := Path.join dest rest
  match e.kind with
  | .directory =>
    Task.makeDirectories .file target
    return 0
  | .file =>
    makeParents target
    Task.changeFiles .file fun files now => files.replace target (fileOf e now) now
    return 1
  | .directoryByName =>
    makeParents target
    makeNamedDirectory target e
    return 1
  | .other => throw (.unsafeEntry e.path)

def unpackEntries (dest : String) : List Entry → Task σ ArchiveError Nat
  | [] => return 0
  | e :: rest => do
    let count ← unpackEntry unpackedFile dest e
    return count + (← unpackEntries dest rest)

/-- Unpacks what can be read of an archive and tells the number of files. -/
def unpackContents (dest : String) (c : Contents) : Task σ ArchiveError Nat := do
  let count ← unpackEntries dest c.entries
  match c.ending with
  | .complete => return count
  | .broken => throw .unreadable
  | .cut e =>
    let _ ← unpackEntry partialFile dest e
    throw .unreadable

/-- Unpacks an archive into a directory. -/
def unpack (dest : String) (archive : ByteArray) : Task σ ArchiveError Nat := unpackContents dest (decode archive)

end CrossBuild.Archive
