import CrossBuild.Store.Basic

/-!
A store that keeps its bundles in memory.
-/

namespace CrossBuild

/-- A bundle with what decided how long it is kept. -/
structure Blob where
  data : ByteArray
  tag : Option BundleTag
  expiresAt : Option Instant
  deriving DecidableEq

/-- Bundles by key. -/
abbrev Memory := SortedMap String Blob

namespace Memory

def listed (m : Memory) (start : String) : List String := m.keys.filter (Text.startsWith · start)

def store (r : Retention) : Store Memory where
  put key data tag := do
    let expiresAt ← Store.expiration r tag
    modify fun machine => { machine with service := machine.service.insert key ⟨data, tag, expiresAt⟩ }
    return expiresAt
  list start := do return listed (← get).service start
  fetch key := do
    match (← get).service.get? key with
    | some blob => return blob.data
    | none => throw (.notFound key)

end Memory

end CrossBuild
