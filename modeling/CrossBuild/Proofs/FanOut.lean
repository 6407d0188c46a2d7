import CrossBuild.Proofs.Placement
import CrossBuild.Proofs.SelectionMeaning
import CrossBuild.Proofs.ShellWords
import Mathlib.Data.List.Perm.Basic

/-!
# The jobs of the pipeline that a run starts with

A selection says what the first pipeline has to do: three steps for every host, one start for every
target of a host, and a description of the child to be started where the target is a platform of this
tree. `topLevel_fansOut` shows that the jobs of the pipeline fulfill these purposes one to one, although
they are made host by host and then sorted by stage, and that each start of a child comes after the job
that describes it and takes just what that job writes.
-/

namespace CrossBuild.Proofs
open Plan

/-! ### Purposes of jobs -/

/-- What a job of the first pipeline is there for. -/
inductive Purpose where
  | step (role : StageRole) (host : String)
  /-- Writes the descriptor of the child that builds a platform. -/
  | describe (host platform : String)
  /-- Starts what builds a target. -/
  | start (host : String) (target : Target)
  deriving DecidableEq

namespace Purpose

def role : Purpose → StageRole
  | .step role _ => role
  | .describe .. => .generateChildren
  | .start .. => .triggerChildren

/-- What the name of the job says besides its stage. -/
def parts : Purpose → List String
  | .step _ host => [host]
  | .describe host platform => [host, platform]
  | .start host target => [host, target.name]

end Purpose

/-- The roles of the steps for a host. -/
def stepRoles : List StageRole := [.prereqs, .build, .test]

def targetPurposes (host : String) : Target → List Purpose
  | .here platform => [.describe host platform.name, .start host (.here platform)]
  | .remote name project branch => [.start host (.remote name project branch)]

def hostPurposes (selection : Selection) (host : String) : List Purpose :=
  stepRoles.map (.step · host) ++ (selection.targetsOf host).flatMap (targetPurposes host)

/-- All that is to be done for a selection. -/
def purposes (selection : Selection) : List Purpose :=
  selection.hosts.flatMap fun host => hostPurposes selection host.name

/-- The words of the command that writes the descriptor of a child to a file. -/
def describeWords (p : Plan) (host platform output : String) : List String :=
  p.settings.generatorCommand.argv ++
    ["generate", "--child", "--host", host, "--platform", platform, "--output", output]

/-- A job does what some purpose asks for. -/
def DoesWork (p : Plan) (job : Job) : Purpose → Prop
  | .step _ host => StagedFor p .host host [host] job
  | .describe host platform =>
    job.trigger = none ∧ job.artifacts = some [p.settings.childDescriptor host platform] ∧
      job.script.map arguments? =
        [some (describeWords p host platform (p.settings.childDescriptor host platform))]
  | .start host (.here platform) =>
    ∃ stage, p.catalog.stageFor? .host .generateChildren = some stage ∧
      job.trigger = some (.child (p.settings.childDescriptor host platform.name)
        (jobName [stage, host, platform.name]) p.strategy)
  | .start host (.remote name project branch) =>
    job.trigger = some (.downstream project branch p.strategy) ∧
      job.vars.entries = [("platforms", host ++ ":" ++ name)]

/-- A job fulfills a purpose: it does the work in the right stage and has the right name. -/
structure Fulfills (p : Plan) (purpose : Purpose) (job : Job) : Prop where
  stage : p.catalog.stageFor? .host purpose.role = some job.stage
  name : job.name = jobName (job.stage :: purpose.parts)
  work : DoesWork p job purpose

/-- The name that jobs for some purpose have, if there is a stage for them. -/
def purposeName? (p : Plan) (purpose : Purpose) : Option String :=
  (p.catalog.stageFor? .host purpose.role).map fun stage => jobName (stage :: purpose.parts)

lemma Fulfills.purposeName? {p : Plan} {purpose : Purpose} {job : Job} (h : Fulfills p purpose job) :
    purposeName? p purpose = some job.name := by
  rw [Proofs.purposeName?, h.stage, h.name]
  rfl

lemma names_of_fulfills {p : Plan} {order : List Purpose} {jobs : List Job}
    (h : List.Forall₂ (Fulfills p) order jobs) :
    order.map (purposeName? p) = (jobs.map (·.name)).map some := by
  induction h with
  | nil => rfl
  | cons hfulfills _ ih => rw [List.map_cons, hfulfills.purposeName?, ih, List.map_cons, List.map_cons]

lemma start_mem_purposes {selection : Selection} {host : Platform} (hhost : host ∈ selection.hosts)
    {target : Target} (htarget : target ∈ selection.targetsOf host.name) :
    .start host.name target ∈ purposes selection := by
  refine List.mem_flatMap.mpr ⟨host, hhost, List.mem_append_right _ ?_⟩
  refine List.mem_flatMap.mpr ⟨target, htarget, ?_⟩
  cases target <;> simp [targetPurposes]

/-- What is started here is described as well. -/
lemma describe_mem_purposes {selection : Selection} {host : String} {platform : Platform}
    (h : .start host (.here platform) ∈ purposes selection) :
    .describe host platform.name ∈ purposes selection := by
  obtain ⟨found, hfound, hmem⟩ := List.mem_flatMap.mp h
  refine List.mem_flatMap.mpr ⟨found, hfound, ?_⟩
  rcases List.mem_append.mp hmem with hstep | hmem
  · simp at hstep
  · obtain ⟨target, htarget, hstart⟩ := List.mem_flatMap.mp hmem
    refine List.mem_append_right _ (List.mem_flatMap.mpr ⟨target, htarget, ?_⟩)
    cases target with
    | here other =>
      obtain ⟨rfl, rfl⟩ : host = found.name ∧ platform = other := by simpa [targetPurposes] using hstart
      simp [targetPurposes]
    | remote name project branch => simp [targetPurposes] at hstart

/-! ### The jobs that are made -/

lemma stage_eq_ok {p : Plan} {kind : PipelineKind} {role : StageRole} {stage : String} :
    p.stage kind role = .ok stage ↔ p.catalog.stageFor? kind role = some stage := by
  unfold Plan.stage
  cases p.catalog.stageFor? kind role <;> simp

lemma stepJobs_eq_mapM (p : Plan) (kind : PipelineKind) (parts includes : List String) (host : String)
    (steps : List (StageRole × Command)) :
    p.stepJobs kind parts includes host steps = steps.mapM fun step => do
      let stage ← p.stage kind step.1
      return p.stagedJob kind stage (jobName (stage :: parts)) includes step.2 host := by
  induction steps with
  | nil => rfl
  | cons step steps ih =>
    obtain ⟨role, build⟩ := step
    rw [stepJobs, List.mapM_cons, ih]
    cases p.stage kind role with
    | error error => rfl
    | ok stage => rfl

lemma hostJobs_fulfill {p : Plan} {host : Platform} {jobs : List Job} (h : p.hostJobs host = .ok jobs) :
    List.Forall₂ (Fulfills p) (stepRoles.map (.step · host.name)) jobs := by
  have hstep : ∀ (step : StageRole × Command) (job : Job),
      (do
        let stage ← p.stage .host step.1
        return p.stagedJob .host stage (jobName [stage, host.name]) (platformGlobs [host.name]) step.2
          host.name) = Except.ok job → Fulfills p (.step step.1 host.name) job := by
    intro step job hjob
    simp only [bind_eq_ok, stage_eq_ok, pure_eq_ok] at hjob
    obtain ⟨stage, hstage, rfl⟩ := hjob
    exact ⟨hstage, rfl, ⟨_, _, _, rfl⟩, ⟨_, rfl⟩, by simp⟩
  simp only [hostJobs, stepJobs_eq_mapM, mapM_eq_ok] at h
  exact (List.forall₂_map_left_iff (f := fun step : StageRole × Command =>
    Purpose.step step.1 host.name)).mpr (h.imp hstep)

lemma targetJobs_fulfill {p : Plan} {generateStage triggerStage : String}
    (hgenerate : p.catalog.stageFor? .host .generateChildren = some generateStage)
    (htrigger : p.catalog.stageFor? .host .triggerChildren = some triggerStage) (host : String)
    (target : Target) :
    List.Forall₂ (Fulfills p) (targetPurposes host target)
      (p.targetJobs generateStage triggerStage host target) := by
  cases target with
  | here platform =>
    have hline : ∀ output, arguments? (p.settings.generateChildCommand host platform.name output).toShell =
        some (describeWords p host platform.name output) := fun _ => arguments?_toShell rfl
    refine .cons ⟨hgenerate, rfl, rfl, rfl, ?_⟩ (.cons ⟨htrigger, rfl, _, hgenerate, rfl⟩ .nil)
    simp only [Job.ofScript, List.map_cons, List.map_nil, hline]
  | remote name project branch => exact .cons ⟨htrigger, rfl, rfl, rfl⟩ .nil

lemma topLevelJobs_fulfill {p : Plan} {selection : Selection} {generateStage triggerStage : String}
    (hgenerate : p.catalog.stageFor? .host .generateChildren = some generateStage)
    (htrigger : p.catalog.stageFor? .host .triggerChildren = some triggerStage)
    {hosts : List Platform} {jobs : List Job}
    (h : p.topLevelJobs selection generateStage triggerStage hosts = .ok jobs) :
    List.Forall₂ (Fulfills p) (hosts.flatMap fun host => hostPurposes selection host.name) jobs := by
  induction hosts generalizing jobs with
  | nil =>
    cases h
    exact .nil
  | cons host hosts ih =>
    simp only [topLevelJobs, bind_eq_ok, pure_eq_ok] at h
    obtain ⟨own, hown, rest, hrest, rfl⟩ := h
    have htargets : List.Forall₂ (Fulfills p)
        ((selection.targetsOf host.name).flatMap (targetPurposes host.name))
        ((selection.targetsOf host.name).flatMap (p.targetJobs generateStage triggerStage host.name)) := by
      induction selection.targetsOf host.name with
      | nil => exact .nil
      | cons target targets ihTargets =>
        exact List.rel_append (targetJobs_fulfill hgenerate htrigger host.name target) ihTargets
    exact List.rel_append (List.rel_append (hostJobs_fulfill hown) htargets) (ih hrest)

lemma topLevel_jobs {p : Plan} {pipeline : Pipeline} (h : p.topLevel = .ok pipeline) :
    ∃ selection jobs, p.select = .ok selection ∧ List.Forall₂ (Fulfills p) (purposes selection) jobs ∧
      Placeable (p.catalog.names .host) jobs ∧ pipeline.stages = p.catalog.names .host ∧
      pipeline.jobs = inStageOrder (p.catalog.names .host) jobs := by
  simp only [topLevel, bind_eq_ok, stage_eq_ok] at h
  obtain ⟨selection, hselect, generateStage, hgenerate, triggerStage, htrigger, jobs, hjobs, h⟩ := h
  obtain ⟨_, hstages, hlist⟩ := pipelineOf_eq_ok h
  exact ⟨selection, jobs, hselect, topLevelJobs_fulfill hgenerate htrigger hjobs,
    pipelineOf_succeeds_iff.mp ⟨pipeline, h⟩, hstages, hlist⟩

/-! ### One job for each purpose -/

section Served

variable {p : Plan} {order : List Purpose} {jobs : List Job} (h : List.Forall₂ (Fulfills p) order jobs)
  (hnames : (jobs.map (·.name)).Nodup)

include h hnames

lemma nodup_order : order.Nodup := by
  have hmap : (order.map (purposeName? p)).Nodup := by
    rw [names_of_fulfills h]
    exact hnames.map fun _ _ => Option.some.inj
  exact hmap.of_map

lemma existsUnique_fulfills {purpose : Purpose} (hmem : purpose ∈ order) :
    ∃! job, job ∈ jobs ∧ Fulfills p purpose job := by
  obtain ⟨job, hjob, hfulfills⟩ := exists_of_forall₂ h hmem
  refine ⟨job, ⟨hjob, hfulfills⟩, ?_⟩
  rintro other ⟨hother, hsame⟩
  -- the purpose gives the name, and no name is there twice
  have hname : some other.name = some job.name := hsame.purposeName?.symm.trans hfulfills.purposeName?
  exact List.inj_on_of_nodup_map hnames hother hjob (Option.some_inj.mp hname)

end Served

/-- The job that starts a child stands in a later stage than one that describes it, and takes the one
file that this job keeps and writes. -/
structure HandsOver (p : Plan) (pipeline : Pipeline) (host platform : String) (generate start : Job) :
    Prop where
  order : ∃ before between after, pipeline.jobs = before ++ generate :: (between ++ start :: after)
  earlier : pipeline.stages.idxOf generate.stage < pipeline.stages.idxOf start.stage
  output : ∃ output, generate.artifacts = some [output] ∧
    generate.script.map arguments? = [some (describeWords p host platform output)] ∧
    start.trigger = some (.child output generate.name p.strategy)

lemma handsOver_of_fulfills {p : Plan} {pipeline : Pipeline}
    (hplace : Placeable pipeline.stages pipeline.jobs) (hsorted : pipeline.jobs.Pairwise
      (fun a b => pipeline.stages.idxOf a.stage ≤ pipeline.stages.idxOf b.stage))
    {host : String} {platform : Platform} {generate start : Job}
    (hgenerate : generate ∈ pipeline.jobs) (hdescribes : Fulfills p (.describe host platform.name) generate)
    (hstart : start ∈ pipeline.jobs) (hstarts : Fulfills p (.start host (.here platform)) start) :
    HandsOver p pipeline host platform.name generate start := by
  obtain ⟨_, hartifacts, hscript⟩ := hdescribes.work
  obtain ⟨stage, hstage, htrigger⟩ := hstarts.work
  obtain rfl : generate.stage = stage := Option.some_inj.mp (hdescribes.stage.symm.trans hstage)
  have hchild : start.trigger =
      some (.child (p.settings.childDescriptor host platform.name) generate.name p.strategy) := by
    rw [htrigger, hdescribes.name]
    rfl
  have hwaits : Pipeline.prerequisite? start = some generate.name := by
    rw [Pipeline.prerequisite?, hchild]
  -- the job that is waited for has the name of the one that describes, so it is this one
  obtain ⟨earlier, hearlier, hname, hlt⟩ := hplace.prerequisite start hstart _ hwaits
  obtain rfl := List.inj_on_of_nodup_map hplace.names hearlier hgenerate hname
  refine ⟨?_, hlt, _, hartifacts, hscript, hchild⟩
  obtain ⟨front, after, hfront⟩ := List.append_of_mem hstart
  rw [hfront] at hsorted hgenerate
  obtain ⟨before, between, rfl⟩ := List.append_of_mem (mem_before hsorted hgenerate hlt)
  exact ⟨before, between, after, by simpa using hfront⟩

lemma strategy_eq_none_iff (p : Plan) : p.strategy = none ↔ p.run.cause = .schedule := by
  unfold Plan.strategy Cause.isScheduled
  split
  · rename_i hscheduled
    simpa using hscheduled
  · rename_i hscheduled
    simpa using hscheduled

/-- A job that starts a pipeline is there for a target, and how it waits does not depend on which. -/
lemma Fulfills.trigger {p : Plan} {purpose : Purpose} {job : Job} (h : Fulfills p purpose job)
    {trigger : Trigger} (htrigger : job.trigger = some trigger) :
    (∃ host platform stage, purpose = .start host (.here platform) ∧
      p.catalog.stageFor? .host .generateChildren = some stage ∧
      trigger = .child (p.settings.childDescriptor host platform.name)
        (jobName [stage, host, platform.name]) p.strategy) ∨
    ∃ host name project branch, purpose = .start host (.remote name project branch) ∧
      trigger = .downstream project branch p.strategy := by
  have hwork := h.work
  cases purpose with
  | step role host =>
    obtain ⟨stage, name, build, rfl⟩ := hwork.eq_stagedJob
    cases htrigger
  | describe host platform => cases hwork.1.symm.trans htrigger
  | start host target =>
    cases target with
    | here platform =>
      obtain ⟨stage, hstage, hchild⟩ := hwork
      exact .inl ⟨host, platform, stage, rfl, hstage, Option.some.inj (htrigger.symm.trans hchild)⟩
    | remote name project branch =>
      exact .inr ⟨host, name, project, branch, rfl, Option.some.inj (htrigger.symm.trans hwork.1)⟩

/-- The first pipeline does what its selection asks for. Its jobs are sorted by stage and fulfill
the purposes of the selection one to one; every target of this tree is described in an earlier stage than
it is started; and jobs that start a pipeline do not wait for it just if the run is scheduled. -/
theorem topLevel_fansOut {p : Plan} {pipeline : Pipeline} (h : p.topLevel = .ok pipeline) :
    ∃ selection, p.select = .ok selection ∧
      pipeline.stages = p.catalog.names .host ∧
      (∀ job ∈ pipeline.jobs, job.stage ∈ pipeline.stages) ∧
      pipeline.jobs.Pairwise
        (fun a b => pipeline.stages.idxOf a.stage ≤ pipeline.stages.idxOf b.stage) ∧
      (purposes selection).Nodup ∧
      (∃ order, order.Perm (purposes selection) ∧ List.Forall₂ (Fulfills p) order pipeline.jobs) ∧
      (∀ purpose ∈ purposes selection, ∃! job, job ∈ pipeline.jobs ∧ Fulfills p purpose job) ∧
      (∀ host ∈ selection.hosts, ∀ platform, .here platform ∈ selection.targetsOf host.name →
        ∃ generate start, Fulfills p (.describe host.name platform.name) generate ∧
          Fulfills p (.start host.name (.here platform)) start ∧
          HandsOver p pipeline host.name platform.name generate start) ∧
      ∀ job ∈ pipeline.jobs, ∀ trigger, job.trigger = some trigger →
        (trigger.strategy = none ↔ p.run.cause = .schedule) := by
  obtain ⟨selection, jobs, hselect, hfulfills, hplaceable, hstages, hjobs⟩ := topLevel_jobs h
  have hperm : jobs.Perm pipeline.jobs := by
    rw [hjobs]
    exact (inStageOrder_perm _ _).symm
  have hplace : Placeable pipeline.stages pipeline.jobs := by
    rw [hstages]
    exact hplaceable.perm hperm
  have hsorted : pipeline.jobs.Pairwise
      (fun a b => pipeline.stages.idxOf a.stage ≤ pipeline.stages.idxOf b.stage) := by
    rw [hstages, hjobs]
    exact inStageOrder_sorted hplaceable.stage
  have hone : ∀ purpose ∈ purposes selection, ∃! job, job ∈ pipeline.jobs ∧ Fulfills p purpose job := by
    intro purpose hpurpose
    simpa only [hperm.mem_iff] using existsUnique_fulfills hfulfills hplaceable.names hpurpose
  have horder : ∃ order, order.Perm (purposes selection) ∧ List.Forall₂ (Fulfills p) order pipeline.jobs := by
    obtain ⟨order, hforall, horder⟩ := List.perm_comp_forall₂ hperm.symm hfulfills.flip
    exact ⟨order, horder, hforall.flip⟩
  refine ⟨selection, hselect, hstages, hplace.stage, hsorted, nodup_order hfulfills hplaceable.names, horder,
    hone, ?_, ?_⟩
  · intro host hhost platform hplatform
    have hmem := start_mem_purposes hhost hplatform
    obtain ⟨generate, ⟨hgenerate, hdescribes⟩, _⟩ := hone _ (describe_mem_purposes hmem)
    obtain ⟨start, ⟨hstart, hstarts⟩, _⟩ := hone _ hmem
    exact ⟨generate, start, hdescribes, hstarts,
      handsOver_of_fulfills hplace hsorted hgenerate hdescribes hstart hstarts⟩
  · intro job hjob trigger htrigger
    obtain ⟨order, _, hforall⟩ := horder
    obtain ⟨purpose, _, hpurpose⟩ := exists_of_forall₂ hforall.flip hjob
    rw [← strategy_eq_none_iff]
    rcases Fulfills.trigger hpurpose htrigger with
      ⟨_, _, _, _, _, rfl⟩ | ⟨_, _, _, _, _, rfl⟩
    · exact Iff.rfl
    · exact Iff.rfl

/-- Two hosts with three steps each, two platforms here with five jobs and one downstream with one. -/
theorem topLevel_fansOut_radio :
    ∃ pipeline, radioPlan.topLevel = .ok pipeline ∧ pipeline.jobs.length = 13 ∧
      ∃ generate start, generate.name = "generate-children:centos7:zed" ∧
        HandsOver radioPlan pipeline "centos7" "zed" generate start := by
  obtain ⟨pipeline, h⟩ : ∃ pipeline, radioPlan.topLevel = .ok pipeline := by
    have hsome : radioPlan.topLevel.toOption.isSome = true := by decide +kernel
    cases htop : radioPlan.topLevel with
    | error error => simp [htop, Except.toOption] at hsome
    | ok pipeline => exact ⟨pipeline, rfl⟩
  obtain ⟨selection, hselect, _, _, _, _, ⟨order, hperm, hfulfills⟩, _, hpairs, _⟩ := topLevel_fansOut h
  obtain rfl : radioSelection = selection := Except.ok.inj (select_radioPlan.symm.trans hselect)
  have hlength : (purposes radioSelection).length = 13 := by decide
  refine ⟨pipeline, h, ?_, ?_⟩
  · rw [← hfulfills.length_eq, hperm.length_eq, hlength]
  · obtain ⟨generate, start, hdescribes, _, hhands⟩ :=
      hpairs ⟨"centos7", "core", .rcc .host, .ofList ["zed"]⟩ (by decide)
        ⟨"zed", "platform", .hdl .cross false, .ofList ["centos7"]⟩ (by decide)
    have hstage : "generate-children" = generate.stage := Option.some.inj hdescribes.stage
    refine ⟨generate, start, ?_, hhands⟩
    rw [hdescribes.name, ← hstage]
    rfl

end CrossBuild.Proofs
