import CrossBuild.Plan.Child
import CrossBuild.Plan.TopLevel
import CrossBuild.Proofs.Sequencing

/-!
# Jobs of generated pipelines

Every job of a pipeline that a plan generates is staged, writes the descriptor of a child or starts
another pipeline. A staged job is known by what follows its script in any case; `exists_stagedFor`
finds for it the host it runs on and the platforms whose bundles it fetches.
-/

namespace CrossBuild.Proofs
open Plan

/-- The pipeline of a run, or one of its children. -/
def Generates (p : Plan) (pipeline : Pipeline) : Prop :=
  p.topLevel = .ok pipeline ∨ ∃ host platform, p.child host platform = .ok pipeline

/-- A job that hands on what it made even if it fails. -/
def IsStaged (job : Job) : Prop := job.afterScript ≠ []

instance (job : Job) : Decidable (IsStaged job) := inferInstanceAs (Decidable (job.afterScript ≠ []))

/-- A staged job on a host that fetches the bundles of some platforms. -/
structure StagedFor (p : Plan) (kind : PipelineKind) (host : String) (platforms : List String)
    (job : Job) : Prop where
  eq_stagedJob : ∃ stage name build,
    job = p.stagedJob kind stage name (platformGlobs platforms) build host
  named : ∃ parts, job.name = jobName (job.stage :: parts)
  /-- The bundles of the host itself are among those. -/
  host_mem : host ∈ platforms

lemma isStaged_stagedJob (p : Plan) (kind : PipelineKind) (stage name : String)
    (includes : List String) (build : Command) (host : String) :
    IsStaged (p.stagedJob kind stage name includes build host) := by
  simp [IsStaged, stagedJob, Settings.stagedScript]

lemma StagedFor.isStaged {p : Plan} {kind : PipelineKind} {host : String} {platforms : List String}
    {job : Job} (h : StagedFor p kind host platforms job) : IsStaged job := by
  obtain ⟨stage, name, build, rfl⟩ := h.eq_stagedJob
  exact isStaged_stagedJob _ _ _ _ _ _ _

/-- A runner takes a staged job by the name of its host, which the tags begin with. -/
lemma StagedFor.tags_head? {p : Plan} {kind : PipelineKind} {host : String} {platforms : List String}
    {job : Job} (h : StagedFor p kind host platforms job) : job.tags.head? = some host := by
  obtain ⟨stage, name, build, rfl⟩ := h.eq_stagedJob
  rfl

/-! ### Placing jobs -/

lemma add_eq_ok {pipeline pipeline' : Pipeline} {job : Job} (h : pipeline.add job = .ok pipeline') :
    pipeline' = { pipeline with jobs := pipeline.jobs ++ [job] } := by
  unfold Pipeline.add at h
  split at h
  · cases h
  · split at h
    · cases h
    · split at h
      · split at h
        · exact (Except.ok.inj h).symm
        · cases h
      · exact (Except.ok.inj h).symm

lemma place_eq_ok {pipeline pipeline' : Pipeline} {job : Job} (h : place pipeline job = .ok pipeline') :
    pipeline' = { pipeline with jobs := pipeline.jobs ++ [job] } := by
  unfold place at h
  split at h
  · rename_i hadd
    cases h
    exact add_eq_ok hadd
  · cases h

lemma foldlM_place {jobs : List Job} {pipeline pipeline' : Pipeline}
    (h : jobs.foldlM place pipeline = .ok pipeline') :
    pipeline' = { pipeline with jobs := pipeline.jobs ++ jobs } := by
  induction jobs generalizing pipeline with
  | nil =>
    rw [List.foldlM_nil, pure_eq_ok] at h
    simp [← h]
  | cons job jobs ih =>
    rw [List.foldlM_cons, bind_eq_ok] at h
    obtain ⟨between, hplace, hrest⟩ := h
    rw [ih hrest, place_eq_ok hplace]
    simp

lemma mem_inStageOrder (stages : List String) (jobs : List Job) (job : Job) :
    job ∈ inStageOrder stages jobs ↔ job ∈ jobs := by
  unfold inStageOrder
  simp only [List.mem_append, List.mem_filter, List.mem_flatMap, List.mem_eraseDups, beq_iff_eq,
    Bool.not_eq_true', List.contains_eq_mem, decide_eq_false_iff_not]
  constructor
  · rintro (h | ⟨_, _, h, _⟩)
    · exact h.1
    · exact h
  · intro h
    by_cases hs : job.stage ∈ stages
    · exact .inr ⟨job.stage, hs, h, rfl⟩
    · exact .inl ⟨h, hs⟩

/-- Jobs are placed one after another into a pipeline that has the stages of the catalog and no job. -/
lemma pipelineOf_eq_foldlM (p : Plan) (kind : PipelineKind) (jobs : List Job) :
    ∃ start : Pipeline, start.kind = kind ∧ start.stages = p.catalog.names kind ∧ start.jobs = [] ∧
      p.pipelineOf kind jobs = (inStageOrder (p.catalog.names kind) jobs).foldlM place start := by
  refine ⟨_, ?_, ?_, ?_, rfl⟩
  all_goals
    split
    · rfl
    · rfl

lemma pipelineOf_eq_ok {p : Plan} {kind : PipelineKind} {jobs : List Job} {pipeline : Pipeline}
    (h : p.pipelineOf kind jobs = .ok pipeline) :
    pipeline.kind = kind ∧ pipeline.stages = p.catalog.names kind ∧
      pipeline.jobs = inStageOrder (p.catalog.names kind) jobs := by
  obtain ⟨start, hkind, hstages, hjobs, heq⟩ := pipelineOf_eq_foldlM p kind jobs
  rw [heq] at h
  simp [foldlM_place h, hkind, hstages, hjobs]

/-! ### Jobs of hosts and their targets -/

lemma stepJobs_stagedFor {p : Plan} {kind : PipelineKind} {parts platforms : List String} {host : String}
    {steps : List (StageRole × Command)} {jobs : List Job} (hhost : host ∈ platforms)
    (h : p.stepJobs kind parts (platformGlobs platforms) host steps = .ok jobs) :
    ∀ job ∈ jobs, StagedFor p kind host platforms job ∧ job.name = jobName (job.stage :: parts) := by
  induction steps generalizing jobs with
  | nil =>
    cases h
    simp
  | cons step steps ih =>
    obtain ⟨role, build⟩ := step
    simp only [stepJobs, bind_eq_ok, pure_eq_ok] at h
    obtain ⟨stage, _, rest, hrest, rfl⟩ := h
    intro job hjob
    rcases List.mem_cons.mp hjob with rfl | hjob
    · exact ⟨⟨⟨stage, _, build, rfl⟩, ⟨parts, rfl⟩, hhost⟩, rfl⟩
    · exact ih hrest job hjob

lemma targetJobs_not_staged {p : Plan} {generateStage triggerStage host : String} {target : Target} :
    ∀ job ∈ p.targetJobs generateStage triggerStage host target, ¬IsStaged job := by
  intro job hjob
  cases target with
  | here platform =>
    simp only [targetJobs, List.mem_cons, List.not_mem_nil, or_false] at hjob
    rcases hjob with rfl | rfl
    · simp [IsStaged, Job.ofScript]
    · simp [IsStaged, Job.ofTrigger]
  | remote name project branch =>
    simp only [targetJobs, List.mem_cons, List.not_mem_nil, or_false] at hjob
    subst hjob
    simp [IsStaged, Job.ofTrigger]

lemma topLevelJobs_staged {p : Plan} {selection : Selection} {generateStage triggerStage : String}
    {hosts : List Platform} {jobs : List Job}
    (h : p.topLevelJobs selection generateStage triggerStage hosts = .ok jobs) :
    ∀ job ∈ jobs, IsStaged job → ∃ host ∈ hosts, StagedFor p .host host.name [host.name] job ∧
      job.name = jobName [job.stage, host.name] := by
  induction hosts generalizing jobs with
  | nil =>
    cases h
    simp
  | cons host hosts ih =>
    simp only [topLevelJobs, bind_eq_ok, pure_eq_ok] at h
    obtain ⟨own, hown, rest, hrest, rfl⟩ := h
    intro job hjob hstaged
    simp only [List.mem_append, List.mem_flatMap] at hjob
    rcases hjob with (hjob | ⟨target, _, hjob⟩) | hjob
    · exact ⟨host, by simp, stepJobs_stagedFor (by simp) hown job hjob⟩
    · exact (targetJobs_not_staged job hjob hstaged).elim
    · obtain ⟨other, hother, hfor⟩ := ih hrest job hjob hstaged
      exact ⟨other, List.mem_cons_of_mem _ hother, hfor⟩

lemma topLevel_eq_ok {p : Plan} {pipeline : Pipeline} (h : p.topLevel = .ok pipeline) :
    pipeline.kind = .host ∧ pipeline.stages = p.catalog.names .host ∧
      ∀ job ∈ pipeline.jobs, IsStaged job → ∃ host ∈ p.hosts, StagedFor p .host host.name [host.name] job ∧
        job.name = jobName [job.stage, host.name] := by
  simp only [topLevel, bind_eq_ok] at h
  obtain ⟨selection, hselect, generateStage, _, triggerStage, _, jobs, hjobs, h⟩ := h
  obtain ⟨hkind, hstages, hlist⟩ := pipelineOf_eq_ok h
  refine ⟨hkind, hstages, fun job hjob hstaged => ?_⟩
  rw [hlist, mem_inStageOrder] at hjob
  obtain ⟨host, hhost, hfor⟩ := topLevelJobs_staged hjobs job hjob hstaged
  refine ⟨host, ?_, hfor⟩
  unfold select at hselect
  split at hselect
  · cases hselect
  · cases hselect
    exact hhost

/-! ### Jobs of children -/

lemma libraryJob_stagedFor {p : Plan} {host : String} {target : Platform} {project : Project}
    {library : Library} {role : StageRole} {build : Command} {job : Job}
    (h : p.libraryJob host target project library role build = .ok job) :
    StagedFor p .hdl host [host, target.name] job := by
  unfold libraryJob at h
  split at h
  · cases h
  · rename_i stage _
    cases h
    exact ⟨⟨stage, _, build, rfl⟩, ⟨_, rfl⟩, by simp⟩

lemma libraryJobs_stagedFor {p : Plan} {host : String} {target : Platform} {project : Project}
    {library : Library} {jobs : List Job} (h : p.libraryJobs host target project library = .ok jobs) :
    ∀ job ∈ jobs, StagedFor p .hdl host [host, target.name] job := by
  unfold libraryJobs at h
  split at h
  · rw [pure_eq_ok] at h
    simp [← h]
  · rw [bind_eq_ok] at h
    obtain ⟨build, hbuild, h⟩ := h
    split at h
    · rw [pure_eq_ok] at h
      subst h
      simpa using libraryJob_stagedFor hbuild
    · simp only [bind_eq_ok, pure_eq_ok] at h
      obtain ⟨tests, htests, test, htest, rfl⟩ := h
      simp [libraryJob_stagedFor hbuild, libraryJob_stagedFor htests, libraryJob_stagedFor htest]

lemma allLibraryJobs_stagedFor {p : Plan} {host : String} {target : Platform}
    {libraries : List (Project × Library)} {jobs : List Job}
    (h : p.allLibraryJobs host target libraries = .ok jobs) :
    ∀ job ∈ jobs, StagedFor p .hdl host [host, target.name] job := by
  induction libraries generalizing jobs with
  | nil =>
    cases h
    simp
  | cons library libraries ih =>
    obtain ⟨project, library⟩ := library
    simp only [allLibraryJobs, bind_eq_ok, pure_eq_ok] at h
    obtain ⟨own, hown, rest, hrest, rfl⟩ := h
    intro job hjob
    rcases List.mem_append.mp hjob with hjob | hjob
    · exact libraryJobs_stagedFor hown job hjob
    · exact ih hrest job hjob

lemma cardJobs_stagedFor {p : Plan} {host : String} {target : Platform} {jobs : List Job}
    (h : p.cardJobs host target = .ok jobs) :
    ∀ job ∈ jobs, ∃ software, StagedFor p .hdl host [host, target.name, software] job := by
  unfold cardJobs at h
  split at h
  · rw [pure_eq_ok] at h
    simp [← h]
  · simp only [bind_eq_ok, pure_eq_ok] at h
    obtain ⟨stage, _, rfl⟩ := h
    intro job hjob
    obtain ⟨software, _, rfl⟩ := List.mem_map.mp hjob
    exact ⟨software, ⟨stage, _, _, rfl⟩, ⟨_, rfl⟩, by simp⟩

lemma child_eq_ok {p : Plan} {host platform : String} {pipeline : Pipeline}
    (h : p.child host platform = .ok pipeline) :
    pipeline.stages = p.catalog.names pipeline.kind ∧
      ∀ job ∈ pipeline.jobs, ∃ platforms, StagedFor p pipeline.kind host platforms job := by
  unfold child at h
  split at h
  · cases h
  · split at h
    · cases h
    · dsimp only at h
      split at h
      · simp only [softwareChild, bind_eq_ok] at h
        obtain ⟨jobs, hjobs, h⟩ := h
        obtain ⟨hkind, hstages, hlist⟩ := pipelineOf_eq_ok h
        rw [hkind]
        refine ⟨hstages, fun job hjob => ?_⟩
        rw [hlist, mem_inStageOrder] at hjob
        exact ⟨_, (stepJobs_stagedFor (by simp) hjobs job hjob).1⟩
      · simp only [hardwareChild, bind_eq_ok] at h
        obtain ⟨libraries, hlibraries, cards, hcards, h⟩ := h
        obtain ⟨hkind, hstages, hlist⟩ := pipelineOf_eq_ok h
        rw [hkind]
        refine ⟨hstages, fun job hjob => ?_⟩
        rw [hlist, mem_inStageOrder] at hjob
        rcases List.mem_append.mp hjob with hjob | hjob
        · exact ⟨_, allLibraryJobs_stagedFor hlibraries job hjob⟩
        · obtain ⟨software, hfor⟩ := cardJobs_stagedFor hcards job hjob
          exact ⟨_, hfor⟩

/-! ### Any generated pipeline -/

lemma stages_of_generates {p : Plan} {pipeline : Pipeline} (h : Generates p pipeline) :
    pipeline.stages = p.catalog.names pipeline.kind := by
  rcases h with h | ⟨host, platform, h⟩
  · obtain ⟨hkind, hstages, _⟩ := topLevel_eq_ok h
    rw [hkind, hstages]
  · exact (child_eq_ok h).1

theorem exists_stagedFor {p : Plan} {pipeline : Pipeline} (h : Generates p pipeline) {job : Job}
    (hjob : job ∈ pipeline.jobs) (hstaged : IsStaged job) :
    ∃ host platforms, StagedFor p pipeline.kind host platforms job := by
  rcases h with h | ⟨host, platform, h⟩
  · obtain ⟨hkind, _, hjobs⟩ := topLevel_eq_ok h
    obtain ⟨host, _, hfor, _⟩ := hjobs job hjob hstaged
    exact ⟨host.name, [host.name], hkind ▸ hfor⟩
  · obtain ⟨platforms, hfor⟩ := (child_eq_ok h).2 job hjob
    exact ⟨host, platforms, hfor⟩

/-! ### A run on two hosts -/

/-- A run on two hosts, of which the name of one ends in the name of the other. -/
def twoHosts : Plan where
  settings := .standard
  catalog := .v2
  inventory := ⟨[], [⟨"centos7", "core", .rcc .host, ∅⟩, ⟨"os7", "core", .rcc .host, ∅⟩]⟩
  run := { (default : Run) with defaultHosts := ["centos7", "os7"] }
  directive := ⟨∅⟩

/-- The job of a host for a role, with the goal that its build command has. -/
def twoHostsJob (host : String) (role : StageRole) (goal : String) : Job :=
  twoHosts.stagedJob .host role.name (jobName [role.name, host]) (platformGlobs [host])
    (twoHosts.settings.buildCommand none goal [("Platform", host)]) host

def twoHostsPipeline : Pipeline where
  kind := .host
  stages := Catalog.v2.names .host
  vars := ∅
  jobs := [
    twoHostsJob "centos7" .prereqs "prerequisites", twoHostsJob "os7" .prereqs "prerequisites",
    twoHostsJob "centos7" .build "build", twoHostsJob "os7" .build "build",
    twoHostsJob "centos7" .test "test", twoHostsJob "os7" .test "test"]

lemma topLevel_twoHosts : twoHosts.topLevel = .ok twoHostsPipeline := by rfl

lemma stagedFor_twoHostsJob (host : String) (role : StageRole) (goal : String) :
    StagedFor twoHosts .host host [host] (twoHostsJob host role goal) :=
  ⟨⟨_, _, _, rfl⟩, ⟨[host], rfl⟩, by simp⟩

end CrossBuild.Proofs
