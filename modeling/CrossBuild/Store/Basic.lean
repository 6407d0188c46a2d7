import CrossBuild.Bundle.Filter
import CrossBuild.Command.Basic
import CrossBuild.Machine
import CrossBuild.Retention

/-!
Stores keep bundles under keys. To put a bundle under a key that is taken replaces the one there, and
every listing is sorted.
-/

namespace CrossBuild

/-- Why a store cannot do what it is asked for. -/
inductive StoreError where
  | notFound (key : String)
  | invalidKey (key : String)
  | command (error : ExecError)
  /-- The backend tells of an expiration, but not when. -/
  | unparsableExpiration (text : String)
  | badExpiryDate (date : String)
  | file (fault : FileFault)
  /-- The backend's answer, or the record of a bundle, is not JSON or not of the right shape. -/
  | badJson
  /-- The bundle would expire after the last day of the calendar. -/
  | beyondCalendar
  deriving DecidableEq, Repr

def StoreError.message : StoreError → String
  | .notFound key => "no bundle stored under key: " ++ key
  | .invalidKey key => "invalid bundle key component `" ++ key ++
      "`: must be a relative path without empty, `.` or `..` segments"
  | .command error => "object storage command failed: " ++ error.message
  | .unparsableExpiration text => "unexpected backend response: unparsable expiration: " ++ text
  | .badExpiryDate date => "unexpected backend response: bad expiry-date `" ++ date ++ "`"
  | .file _ => "IO error"
  | .badJson => "JSON parsing error"
  | .beyondCalendar => "expiration out of range"

/-- A place to keep bundles. -/
structure Store (σ : Type) where
  /-- Stores a bundle and tells when it expires, if ever. -/
  put : String → ByteArray → Option BundleTag → Task σ StoreError (Option Instant)
  /-- The keys that begin with a text, sorted. -/
  list : String → Task σ StoreError (List String)
  /-- The bundle under a key. -/
  fetch : String → Task σ StoreError ByteArray

namespace Store

variable {σ : Type}

def fetchAll (s : Store σ) : List String → Task σ StoreError (List (String × ByteArray))
  | [] => pure []
  | key :: keys => do
    let data ← s.fetch key
    return (key, data) :: (← fetchAll s keys)

/-- The bundles whose keys begin with a text and pass a filter, in the order of their keys. -/
def get (s : Store σ) (start : String) (filter : KeyFilter) : Task σ StoreError (List (String × ByteArray)) := do
  let keys ← s.list start
  s.fetchAll (keys.filter filter.accepts)

/-- When a bundle expires that is stored now. -/
def expiration (r : Retention) (tag : Option BundleTag) : Task σ StoreError (Option Instant) := do
  match r.expiry tag (← MonadState.get).now with
  | .never => return none
  | .at moment => return some moment
  | .beyond => throw .beyondCalendar

end Store

end CrossBuild
