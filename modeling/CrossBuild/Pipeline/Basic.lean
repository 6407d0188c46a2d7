import CrossBuild.Pipeline.Job
import CrossBuild.Stages

/-!
A pipeline is a list of stages and the jobs placed into them. A job is accepted only if its stage is in
the list, its name is new, and the job that describes the child it starts is there already, in an
earlier stage.
-/

namespace CrossBuild

/-- Why a job is not accepted. -/
inductive PlacementError where
  | unknownStage (job stage : String) (kind : PipelineKind)
  | duplicateName (name : String)
  | danglingTrigger (job target : String)
  deriving DecidableEq, Repr

def PlacementError.message : PlacementError → String
  | .unknownStage job stage kind =>
    "job `" ++ job ++ "` uses stage `" ++ stage ++ "` which is not in the " ++ kind.name ++ " stage list"
  | .duplicateName name => "duplicate job name: " ++ name
  | .danglingTrigger job target =>
    "trigger `" ++ job ++ "` references `" ++ target ++ "` which is not a job in an earlier stage"

structure Pipeline where
  kind : PipelineKind
  stages : List String
  vars : SortedMap String String
  /-- The jobs in the order in which they were accepted. -/
  jobs : List Job
  deriving DecidableEq

namespace Pipeline

/-- A pipeline without jobs. -/
def ofStages (kind : PipelineKind) (stages : List String) : Pipeline := ⟨kind, stages, ∅, []⟩

def setVariable (p : Pipeline) (key value : String) : Pipeline :=
  { p with vars := p.vars.insert key value }

def job? (p : Pipeline) (name : String) : Option Job := p.jobs.find? (·.name == name)

def inStage (p : Pipeline) (stage : String) : List Job := p.jobs.filter (·.stage == stage)

/-- Where a stage stands in the list. -/
def stageIndex? (p : Pipeline) (stage : String) : Option Nat := p.stages.findIdx? (· == stage)

/-- Whether a job of some name is there in a stage before the one at an index. -/
def hasEarlier (p : Pipeline) (name : String) (index : Nat) : Bool :=
  ((p.job? name).bind fun job => p.stageIndex? job.stage).any (· < index)

/-- The job that has to be placed before a job because it describes the child that the job starts. -/
def prerequisite? (job : Job) : Option String :=
  match job.trigger with
  | some (.child _ target _) => some target
  | _ => none

/-- Adds a job at the end. -/
def add (p : Pipeline) (job : Job) : Except PlacementError Pipeline :=
  match p.stageIndex? job.stage with
  | none => .error (.unknownStage job.name job.stage p.kind)
  | some index =>
    if (p.job? job.name).isSome then .error (.duplicateName job.name)
    else
      match prerequisite? job with
      | some target =>
        if p.hasEarlier target index then .ok { p with jobs := p.jobs ++ [job] }
        else .error (.danglingTrigger job.name target)
      | none => .ok { p with jobs := p.jobs ++ [job] }

end Pipeline

end CrossBuild
