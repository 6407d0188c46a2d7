import CrossBuild.Calendar.Stamp
import CrossBuild.Json.Reader
import CrossBuild.Json.Writer
import CrossBuild.Store.Basic

/-!
A store in a directory: bundles below `objects`, each at the path that its key is, and a record of
each below `meta`, at the same path with `.json` after it.
-/

namespace CrossBuild

/-- What is recorded of a bundle. -/
structure BundleRecord where
  tag : Option BundleTag
  storedAt : Instant
  expiresAt : Option Instant
  deriving DecidableEq

namespace BundleRecord

def toJson (r : BundleRecord) : Json :=
  .object [
    ("tag", .ofText? (r.tag.map (·.name))),
    ("stored_at", .text r.storedAt.text),
    ("expires_at", .ofText? (r.expiresAt.map (·.text)))]

def instant? (j : Json) : Option Instant := j.text?.bind Instant.ofText?

def ofJson? (j : Json) : Option BundleRecord := do
  return {
    tag := (← j.optional? "tag" Json.text?).map BundleTag.ofName
    storedAt := ← j.field? "stored_at" instant?
    expiresAt := ← j.optional? "expires_at" instant? }

end BundleRecord

/-- A directory that holds a store, with how long bundles are kept. -/
structure Directory where
  root : String
  retention : Retention

namespace Directory

variable {σ : Type}

def objectsDir (d : Directory) : String := Path.join d.root "objects"

def recordsDir (d : Directory) : String := Path.join d.root "meta"

/-- Whether a key is a relative path of plain names. -/
def isUsableKey (key : String) : Bool :=
  (Text.splitAt '/' key).all fun part => part != "" && part != "." && part != ".."

def checkKey (key : String) : Task σ StoreError Unit :=
  if isUsableKey key then pure () else throw (.invalidKey key)

def objectPath (d : Directory) (key : String) : String := Path.join d.objectsDir key

def recordPath (d : Directory) (key : String) : String := Path.join d.recordsDir (key ++ ".json")

/-- The permissions of files in a store. -/
def privateMode : Nat := 0o600

/-- Puts a file in its place as a whole, with the directories above it. -/
def writeWhole (path : String) (data : ByteArray) : Task σ StoreError Unit := do
  Task.makeDirectories .file ((Path.parent? path).getD "")
  Task.changeFiles .file fun files now => files.replace path ⟨data, now, privateMode⟩ now

/-- Makes the directories of the store. -/
def setUp (d : Directory) : Task σ StoreError Unit := do
  Task.makeDirectories .file d.objectsDir
  Task.makeDirectories .file d.recordsDir

def put (d : Directory) (key : String) (data : ByteArray) (tag : Option BundleTag) :
    Task σ StoreError (Option Instant) := do
  let storedAt := (← get).now
  let expiresAt ← Store.expiration d.retention tag
  checkKey key
  writeWhole (d.objectPath key) data
  writeWhole (d.recordPath key) (BundleRecord.toJson ⟨tag, storedAt, expiresAt⟩).pretty.toUTF8
  return expiresAt

/-- The paths of the files below a place, as keys. -/
def keysBelow (files : FileTree) (place : Place) : List String :=
  (files.below place).filterMap fun (names, node) =>
    match node with
    | .file _ => some (Text.join "/" names)
    | _ => none

def list (d : Directory) (start : String) : Task σ StoreError (List String) := do
  let files := (← get).files
  let place ← Task.ofExcept .file (files.place d.objectsDir)
  return ((keysBelow files place).filter (Text.startsWith · start)).mergeSort (· ≤ ·)

/-- What a file holds; `missing` stands for a file that is not there. -/
def readOr {α : Type} (path : String) (found : ByteArray → Task σ StoreError α)
    (missing : Task σ StoreError α) : Task σ StoreError α := do
  match (← get).files.read path with
  | .ok data => found data
  | .error .notFound => missing
  | .error fault => throw (.file fault)

def fetch (d : Directory) (key : String) : Task σ StoreError ByteArray := do
  checkKey key
  readOr (d.objectPath key) pure (throw (.notFound key))

/-- What is recorded of the bundle under a key. -/
def record? (d : Directory) (key : String) : Task σ StoreError (Option BundleRecord) := do
  checkKey key
  readOr (d.recordPath key)
    (fun data =>
      match (String.fromUTF8? data).bind fun text => (Json.ofString? text).bind BundleRecord.ofJson? with
      | some record => pure (some record)
      | none => throw .badJson)
    (pure none)

def store (d : Directory) : Store σ where
  put := d.put
  list := d.list
  fetch := d.fetch

end Directory

end CrossBuild
