import CrossBuild.Plan.Jobs

/-!
The pipeline that a run starts with. It builds and tests each host; for each target of a host it
writes the descriptor of a child and starts it, or starts the repository that builds the target.
-/

namespace CrossBuild.Plan

/-- Builds and tests a host. -/
def hostJobs (p : Plan) (host : Platform) : Except PlanError (List Job) :=
  let vars := [("Platform", host.name)]
  p.stepJobs .host [host.name] (platformGlobs [host.name]) host.name [
    (.prereqs, p.settings.buildCommand none "prerequisites" vars),
    (.build, p.settings.buildCommand none "build" vars),
    (.test, p.settings.testCommand none host host.name)]

/-- Starts what builds one target of a host. -/
def targetJobs (p : Plan) (generateStage triggerStage host : String) (target : Target) : List Job :=
  let triggerName := jobName [triggerStage, host, target.name]
  match target with
  | .here platform =>
    let generateName := jobName [generateStage, host, platform.name]
    let output := p.settings.childDescriptor host platform.name
    let generate := p.settings.generateChildCommand host platform.name output
    [{ Job.ofScript generateName generateStage [generate.toShell] with
        artifacts := some [output]
        tags := p.settings.tagsFor host },
      Job.ofTrigger triggerName triggerStage (.child output generateName p.strategy)]
  | .remote name project branch =>
    [{ Job.ofTrigger triggerName triggerStage (.downstream project branch p.strategy) with
        vars := SortedMap.ofList [(RunVariable.platforms.name, host ++ ":" ++ name)] }]

/-- All jobs of hosts and their targets. -/
def topLevelJobs (p : Plan) (selection : Selection) (generateStage triggerStage : String) :
    List Platform → Except PlanError (List Job)
  | [] => .ok []
  | host :: hosts => do
    let own ← p.hostJobs host
    let targets := (selection.targetsOf host.name).flatMap (p.targetJobs generateStage triggerStage host.name)
    return own ++ targets ++ (← p.topLevelJobs selection generateStage triggerStage hosts)

/-- The pipeline that the run starts with. -/
def topLevel (p : Plan) : Except PlanError Pipeline := do
  let selection ← p.select
  let generateStage ← p.stage .host .generateChildren
  let triggerStage ← p.stage .host .triggerChildren
  p.pipelineOf .host (← p.topLevelJobs selection generateStage triggerStage selection.hosts)

end CrossBuild.Plan
