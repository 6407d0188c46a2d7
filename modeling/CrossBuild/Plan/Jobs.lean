import CrossBuild.JobScript
import CrossBuild.Plan.Selection

/-!
Jobs of a plan in general: the stage of a role, a job with the script that hands bundles on, and the
pipeline that a list of jobs makes.
-/

namespace CrossBuild.Plan

/-- The stage of the catalog that a role has. -/
def stage (p : Plan) (kind : PipelineKind) (role : StageRole) : Except PlanError String :=
  match p.catalog.stageFor? kind role with
  | some stage => .ok stage
  | none => .error (.missingStage role kind)

/-- How jobs wait for the pipelines they start: scheduled runs do not, so that no child can hold up the
others. -/
def strategy (p : Plan) : Option Strategy :=
  if p.run.cause.isScheduled then none else some .depend

/-- A job on a host that runs a build command between fetching and storing bundles. -/
def stagedJob (p : Plan) (kind : PipelineKind) (stage name : String) (includes : List String)
    (build : Command) (host : String) : Job :=
  let staged := p.settings.stagedScript stage name includes (p.catalog.fromStage kind stage) build
  { Job.ofScript name stage staged.script with
    afterScript := staged.afterScript
    tags := p.settings.tagsFor host }

/-- The jobs in the order of their stages; within a stage they stay in their order. Jobs of no stage
come first. -/
def inStageOrder (stages : List String) (jobs : List Job) : List Job :=
  jobs.filter (fun job => !stages.contains job.stage) ++
    stages.eraseDups.flatMap fun stage => jobs.filter (·.stage == stage)

/-- Adds a job to a pipeline. -/
def place (pipeline : Pipeline) (job : Job) : Except PlanError Pipeline :=
  match pipeline.add job with
  | .ok pipeline => .ok pipeline
  | .error error => .error (.placement error)

/-- The pipeline that jobs make. A child knows which run it belongs to. -/
def pipelineOf (p : Plan) (kind : PipelineKind) (jobs : List Job) : Except PlanError Pipeline :=
  let stages := p.catalog.names kind
  let start := Pipeline.ofStages kind stages
  let start :=
    if kind == .host then start
    else start.setVariable RunVariable.parentPipelineId.name p.run.pipelineId
  (inStageOrder stages jobs).foldlM place start

/-- Jobs of one host and perhaps one target, for each role with its build command. -/
def stepJobs (p : Plan) (kind : PipelineKind) (nameParts includes : List String) (host : String) :
    List (StageRole × Command) → Except PlanError (List Job)
  | [] => .ok []
  | (role, build) :: steps => do
    let stage ← p.stage kind role
    let job := p.stagedJob kind stage (jobName (stage :: nameParts)) includes build host
    return job :: (← p.stepJobs kind nameParts includes host steps)

end CrossBuild.Plan
