import CrossBuild.Pipeline.Basic
import CrossBuild.Yaml.Writer

/-!
Pipelines as documents for the CI service: the stages, then variables if there are any, then one entry
for each job in pipeline order. Job names share the top level with words of the format, so those words
cannot name jobs.
-/

namespace CrossBuild

/-- Why a pipeline has no descriptor. -/
inductive DescriptorError where
  | duplicateName (name : String)
  | reservedName (name : String)
  deriving DecidableEq, Repr

def DescriptorError.message : DescriptorError → String
  | .duplicateName name => "duplicate job name in descriptor: " ++ name
  | .reservedName name => "job name `" ++ name ++ "` is a reserved descriptor key"

namespace Descriptor

open Yaml (Value)

/-- Top-level words of the format. -/
def reservedKeys : List String :=
  ["stages", "variables", "default", "include", "workflow", "image", "services", "cache",
    "before_script", "after_script"]

def ofVariables (vars : SortedMap String String) : Value :=
  .table (vars.toList.map fun (key, value) => (key, .text value))

def ofStrategy : Option Strategy → List (String × Value)
  | none => []
  | some strategy => [("strategy", .text strategy.name)]

def ofTrigger : Trigger → Value
  | .child artifact job strategy =>
    .table (("include", .list [.table [("artifact", .text artifact), ("job", .text job)]]) ::
      ofStrategy strategy)
  | .downstream project branch strategy =>
    .table (("project", .text project) :: ("branch", .text branch) :: ofStrategy strategy)

/-- An entry that is left out where its list is empty. -/
def ofTexts (key : String) : List String → List (String × Value)
  | [] => []
  | items => [(key, .texts items)]

/-- What a job does: start a pipeline or run its script. -/
def ofAction (job : Job) : String × Value :=
  match job.trigger with
  | some trigger => ("trigger", ofTrigger trigger)
  | none => ("script", .texts job.script)

/-- The entry of one job. -/
def ofJob (job : Job) : Value :=
  .table (
    ("stage", .text job.stage) ::
    (if job.vars.isEmpty then [] else [("variables", ofVariables job.vars)]) ++
    ofAction job ::
    ofTexts "after_script" job.afterScript ++
    (match job.artifacts with
      | none => []
      | some paths => [("artifacts", .table [("paths", .texts paths)])]) ++
    ofTexts "tags" job.tags)

/-- The entries that stand before the jobs. -/
def header (p : Pipeline) : List (String × Value) :=
  ("stages", .texts p.stages) ::
    if p.vars.isEmpty then [] else [("variables", ofVariables p.vars)]

/-- Adds the entry of a job, whose name has to be free. -/
def addJob (entries : List (String × Value)) (job : Job) :
    Except DescriptorError (List (String × Value)) :=
  if reservedKeys.contains job.name then .error (.reservedName job.name)
  else if entries.any (·.1 == job.name) then .error (.duplicateName job.name)
  else .ok (entries ++ [(job.name, ofJob job)])

/-- The descriptor of a pipeline as a value. -/
def ofPipeline (p : Pipeline) : Except DescriptorError Value := do
  return .table (← p.jobs.foldlM addJob (header p))

/-- The text of the descriptor. -/
def write (p : Pipeline) : Except DescriptorError String := do
  return Yaml.write (← ofPipeline p)

end Descriptor

end CrossBuild
