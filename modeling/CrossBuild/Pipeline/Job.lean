import CrossBuild.SortedMap
import CrossBuild.Text.Basic

/-!
Jobs of a pipeline. A job runs a script, or it starts another pipeline: a child that an earlier job
has described, or one of a repository downstream.
-/

namespace CrossBuild

/-- The non-empty parts of a name with colons between them. -/
def jobName (parts : List String) : String :=
  Text.join ":" (parts.filter (fun part => !part.isEmpty))

/-- How a job waits for the pipeline that it starts. -/
inductive Strategy where
  /-- The job ends as the started pipeline does. -/
  | depend
  deriving DecidableEq, Repr

def Strategy.name : Strategy → String
  | .depend => "depend"

/-- The pipeline that a job starts. -/
inductive Trigger where
  /-- A pipeline described by an artifact of an earlier job. -/
  | child (artifact job : String) (strategy : Option Strategy)
  /-- A pipeline of another repository. -/
  | downstream (project branch : String) (strategy : Option Strategy)
  deriving DecidableEq, Repr

def Trigger.strategy : Trigger → Option Strategy
  | .child _ _ strategy => strategy
  | .downstream _ _ strategy => strategy

structure Job where
  name : String
  stage : String
  script : List String
  afterScript : List String
  vars : SortedMap String String
  /-- The paths that are kept from the job, if it says so. -/
  artifacts : Option (List String)
  tags : List String
  trigger : Option Trigger
  deriving DecidableEq

namespace Job

/-- A job that runs a script. -/
def ofScript (name stage : String) (script : List String) : Job :=
  ⟨name, stage, script, [], ∅, none, [], none⟩

/-- A job that starts another pipeline. -/
def ofTrigger (name stage : String) (trigger : Trigger) : Job :=
  ⟨name, stage, [], [], ∅, none, [], some trigger⟩

def isTrigger (j : Job) : Bool := j.trigger.isSome

end Job

end CrossBuild
