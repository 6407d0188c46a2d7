import CrossBuild.Bundle.Key
import CrossBuild.Calendar.Date
import CrossBuild.SortedMap

/-!
How long bundles are kept: a number of days by tag, with a standard number for bundles without a tag
or with one that is not listed. Without a standard number such bundles are kept forever.
-/

namespace CrossBuild

structure Retention where
  defaultDays : Option Nat
  tags : SortedMap String Nat
  deriving DecidableEq

namespace Retention

/-- A week, two for successful jobs and thirty days for failed ones. -/
def standard : Retention where
  defaultDays := some 7
  tags := .ofList [(BundleTag.successfulJob.name, 14), (BundleTag.failedJob.name, 30)]

def keepForever : Retention := ⟨none, ∅⟩

/-- The days that a bundle is kept. -/
def days? (r : Retention) (tag : Option BundleTag) : Option Nat :=
  match tag.bind (fun t => r.tags.get? t.name) with
  | some days => some days
  | none => r.defaultDays

/-- When a bundle expires that is stored now. -/
inductive Expiry where
  | never
  | at (moment : Instant)
  /-- After the last day of the calendar. -/
  | beyond
  deriving DecidableEq, Repr

def expiry (r : Retention) (tag : Option BundleTag) (now : Instant) : Expiry :=
  match r.days? tag with
  | none => .never
  | some days =>
    match now.plusDays? days with
    | some moment => .at moment
    | none => .beyond

end Retention

end CrossBuild
