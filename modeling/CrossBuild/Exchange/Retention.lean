import CrossBuild.Json.Basic
import CrossBuild.Retention

/-!
Retention as JSON. Numbers of days are below 2³².
-/

namespace CrossBuild.Retention

def toJson (r : Retention) : Json :=
  .object [
    ("default_days", match r.defaultDays with | none => .null | some days => .int days),
    ("tags", .object (r.tags.toList.map fun (tag, days) => (tag, .int days)))]

def daysOf? (j : Json) : Option Nat := j.natBelow? (Nat.pow 2 32)

def ofJson? (j : Json) : Option Retention := do
  let _ ← j.entries?
  return {
    defaultDays := ← j.optional? "default_days" daysOf?
    tags := .ofList (← j.fieldOr? "tags" [] (·.map? daysOf?)) }

end CrossBuild.Retention
