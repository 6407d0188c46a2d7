import CrossBuild.Calendar.MailDate
import CrossBuild.Json.Reader
import CrossBuild.Store.Basic

/-!
A store in a bucket of object storage, which a command-line client reads and writes. Bundles pass
through a scratch file, and the bucket's own rules decide when they expire.
-/

namespace CrossBuild

structure Bucket where
  name : String
  /-- The client. -/
  program : String
  /-- Where the scratch file is. -/
  scratch : String

namespace Bucket

variable {σ : Type}

def url (b : Bucket) (key : String) : String := "s3://" ++ b.name ++ "/" ++ key

def client (b : Bucket) (args : List String) : Command := .ofArgv (b.program :: args)

def copyCommand (b : Bucket) (source target : String) : Command :=
  b.client ["s3", "cp", "--only-show-errors", source, target]

/-- The value that the bucket's rules select on. -/
def tagSet (tag : BundleTag) : String := "TagSet=[\x7bKey=retention,Value=" ++ tag.name ++ "\x7d]"

def tagCommand (b : Bucket) (key : String) (tag : BundleTag) : Command :=
  b.client ["s3api", "put-object-tagging", "--bucket", b.name, "--key", key, "--tagging", tagSet tag]

def headCommand (b : Bucket) (key : String) : Command :=
  b.client ["s3api", "head-object", "--bucket", b.name, "--key", key, "--output", "json"]

def listCommand (b : Bucket) (start : String) : Command :=
  b.client ["s3api", "list-objects-v2", "--bucket", b.name, "--prefix", start, "--output", "json"]

/-- The text between quotes that follows `expiry-date=`. Without a quote at its end it is all the rest. -/
def expiryDate? (expiration : String) : Option String :=
  (Text.afterFirst "expiry-date=\"".toList expiration.toList).map fun rest =>
    String.ofList (rest.takeWhile (· != '"'))

/-- When an object expires, from what the client tells about it. -/
def expirationOf (listing : String) : Except StoreError (Option Instant) :=
  match Json.ofString? listing with
  | none => .error .badJson
  | some j =>
    match (j.get? "Expiration").bind Json.text? with
    | none => .ok none
    | some text =>
      match expiryDate? text with
      | none => .error (.unparsableExpiration text)
      | some date =>
        match MailDate.read? date with
        | some moment => .ok (some moment)
        | none => .error (.badExpiryDate date)

/-- The keys that a listing shows, sorted; nothing but blanks shows none. -/
def keysOf (listing : String) : Except StoreError (List String) :=
  if Text.allBlank listing then .ok []
  else
    match Json.ofString? listing with
    | none => .error .badJson
    | some j =>
      let objects := ((j.get? "Contents").bind Json.items?).getD []
      let keys := objects.filterMap fun object => (object.get? "Key").bind Json.text?
      .ok (keys.mergeSort (· ≤ ·))

/-- Runs a command that has to succeed. -/
def runChecked (run : Executor (Machine σ)) (c : Command) : Task σ StoreError Command.Output := do
  Task.ofExcept .command (← run.runChecked c)

/-- The scratch file with some content for as long as a task runs. -/
def withScratch {α : Type} (b : Bucket) (data : ByteArray) (task : Task σ StoreError α) :
    Task σ StoreError α := do
  Task.changeFiles .file fun files now => files.replace b.scratch ⟨data, now, 0o600⟩ now
  let drop : Task σ StoreError Unit :=
    modify fun machine =>
      { machine with files := (machine.files.remove b.scratch machine.now).toOption.getD machine.files }
  try
    let result ← task
    drop
    return result
  catch e =>
    drop
    throw e

def expiration (b : Bucket) (run : Executor (Machine σ)) (key : String) :
    Task σ StoreError (Option Instant) := do
  let out ← runChecked run (b.headCommand key)
  Task.ofExcept id (expirationOf out.stdout)

def put (b : Bucket) (run : Executor (Machine σ)) (key : String) (data : ByteArray)
    (tag : Option BundleTag) : Task σ StoreError (Option Instant) :=
  b.withScratch data do
    let _ ← runChecked run (b.copyCommand b.scratch (b.url key))
    match tag with
    | none => pure ()
    | some tag => do let _ ← runChecked run (b.tagCommand key tag)
    b.expiration run key

def list (b : Bucket) (run : Executor (Machine σ)) (start : String) : Task σ StoreError (List String) := do
  let out ← runChecked run (b.listCommand start)
  Task.ofExcept id (keysOf out.stdout)

/-- Whether the client's complaint is that there is no such object. -/
def saysNotFound (complaint : String) : Bool :=
  Text.occursIn "404" complaint || Text.occursIn "Not Found" complaint

def fetch (b : Bucket) (run : Executor (Machine σ)) (key : String) : Task σ StoreError ByteArray :=
  b.withScratch .empty do
    let c := b.copyCommand (b.url key) b.scratch
    let out ← Task.ofExcept .command (← run c)
    match c.check out with
    | .ok _ => Task.ofExcept .file ((← get).files.read b.scratch)
    | .error e => throw (if saysNotFound out.stderr then .notFound key else .command e)

def store (b : Bucket) (run : Executor (Machine σ)) : Store σ where
  put := b.put run
  list := b.list run
  fetch := b.fetch run

end Bucket

end CrossBuild
