import CrossBuild.Proofs.ChildSucceeds

/-!
# Tasks of hardware children

What a hardware child is to do is a list of tasks, told by the tree and the directive alone: every library
is built unless it is a platform library that does not matter to the target, component libraries are
tested, and a target that is no simulator gets a card for each software platform it is linked to. The
jobs of a child carry out these tasks one to one, sorted by stage. Where there is no child because a
library cannot be built, it is the first one with a task that no stage is for.
-/

namespace CrossBuild.Proofs
open Plan

/-- What one job of a hardware child is for. -/
inductive HardwareTask where
  | build (project : Project) (library : Library)
  | buildTests (project : Project) (library : Library)
  | test (project : Project) (library : Library)
  | writeCard (software : String)
  deriving DecidableEq

/-- The role of the job that builds a library, told by its kind. -/
def buildRole (core : String) (project : Project) (library : Library) : StageRole :=
  match library.kind with
  | .primitives => if project.name = core then .buildPrimitivesCore else .buildPrimitives
  | .platforms => .buildPlatforms
  | .assemblies => .buildAssemblies
  | .devices | .cards | .adapters | .components => .buildLibraries

namespace HardwareTask

variable (p : Plan) (host : String) (target : Platform)

def role : HardwareTask → StageRole
  | .build project library => buildRole p.settings.coreProject project library
  | .buildTests _ _ => .buildTests
  | .test _ _ => .test
  | .writeCard _ => .buildSdcard

/-- What the name of the job says after its stage. -/
def parts : HardwareTask → List String
  | .build project library | .buildTests project library | .test project library =>
    [project.name, library.label, host, target.name]
  | .writeCard software => [host, target.name, software]

/-- The platforms whose bundles the job fetches. -/
def platforms : HardwareTask → List String
  | .build _ _ | .buildTests _ _ | .test _ _ => [host, target.name]
  | .writeCard software => [host, target.name, software]

def command : HardwareTask → Command
  | .build project library =>
    p.settings.buildCommand (some (p.libraryDir project library)) "build" (hardwareVars host target)
  | .buildTests project library =>
    p.settings.buildCommand (some (p.libraryDir project library)) "build-tests" (hardwareVars host target)
  | .test project library => p.settings.testCommand (some (p.libraryDir project library)) target host
  | .writeCard software =>
    p.settings.buildCommand (some (Path.join p.settings.projectsDir target.project)) "sdcard"
      [("HdlPlatform", target.name), ("RccPlatform", software), ("HostPlatform", host)]

/-- The job of the task in some stage. -/
def jobIn (task : HardwareTask) (stage : String) : Job :=
  p.stagedJob .hdl stage (jobName (stage :: task.parts host target))
    (platformGlobs (task.platforms host target)) (task.command p host target) host

end HardwareTask

/-- The job carries out the task, in the stage that the catalog has for it. -/
structure Carries (p : Plan) (host : String) (target : Platform) (task : HardwareTask) (job : Job) :
    Prop where
  stage : p.catalog.stageFor? .hdl (task.role p) = some job.stage
  eq_jobIn : job = task.jobIn p host target job.stage

/-! ### Lists of tasks -/

/-- The tasks for one library. Platform libraries matter only to the project that owns the target. -/
def libraryTasks (target : Platform) (project : Project) (library : Library) : List HardwareTask :=
  if library.kind = .platforms ∧ project.name ≠ target.project then []
  else if library.kind = .components then
    [.build project library, .buildTests project library, .test project library]
  else [.build project library]

def allLibraryTasks (p : Plan) (target : Platform) : List HardwareTask :=
  (librariesOf p.inventory).flatMap fun owned => libraryTasks target owned.1 owned.2

/-- The software platforms of the tree that the directive links to a name, in the order of their names. -/
def softwareLinks (p : Plan) (name : String) : List String :=
  ((p.directive.links? name).getD ∅).keys.filter fun name =>
    (p.inventory.platform? name).any (fun platform => platform.model == .rcc)

def cardTasks (p : Plan) (target : Platform) : List HardwareTask :=
  if target.isSimulator then [] else (softwareLinks p target.name).map .writeCard

/-- All tasks of a target, in the order of the tree and then of the cards. -/
def hardwareTasks (p : Plan) (target : Platform) : List HardwareTask :=
  allLibraryTasks p target ++ cardTasks p target

/-- The tasks that have a stage, in the order of the stages. Within a stage they stay in their order. -/
def tasksByStage (p : Plan) (target : Platform) : List HardwareTask :=
  (p.catalog.names .hdl).eraseDups.flatMap fun stage =>
    (hardwareTasks p target).filter fun task => p.catalog.stageFor? .hdl (task.role p) == some stage

/-- A library has a task that no stage is for. -/
def LacksStage (p : Plan) (target : Platform) (project : Project) (library : Library) : Prop :=
  ∃ task ∈ libraryTasks target project library, ∀ stage ∈ p.catalog.hdl, stage.role ≠ task.role p

lemma stageFor?_eq_none {c : Catalog} {role : StageRole} :
    c.stageFor? .hdl role = none ↔ ∀ stage ∈ c.hdl, stage.role ≠ role := by
  simp [Catalog.stageFor?, Catalog.stages]

/-! ### Links -/

lemma keys_inter (s t : NameSet) : (s.inter t).keys = s.keys.filter t.contains := by
  simp [NameSet.inter, SortedMap.keys, SortedMap.filter, List.filter_map, Function.comp_def]

lemma linkedSoftware_withLinks (p : Plan) (target : Platform) :
    p.linkedSoftware (target.withLinks p.directive p.inventory.platformNames) =
      softwareLinks p target.name := by
  -- a platform that the tree does not know is no software platform either
  have hknown : ∀ name, (p.inventory.platform? name).any (fun platform => platform.model == .rcc) = true →
      p.inventory.platformNames.contains name = true := by
    intro name hname
    obtain ⟨platform, hplatform, _⟩ := (Option.any_eq_true _ _).mp hname
    refine (contains_platformNames _ _).mpr ⟨platform, List.mem_of_find?_eq_some hplatform, ?_⟩
    simpa using List.find?_some hplatform
  unfold linkedSoftware softwareLinks Platform.withLinks
  cases p.directive.links? target.name with
  | none => rfl
  | some links =>
    dsimp only [Option.map_some, Option.getD_some]
    rw [keys_inter, List.filter_filter]
    refine List.filter_congr fun name _ => ?_
    rw [Bool.and_eq_left_iff_imp]
    exact hknown name

/-! ### Jobs of libraries -/

section Libraries

variable {p : Plan} {host : String} {target : Platform}

lemma libraryRole?_eq (project : Project) (library : Library) :
    p.libraryRole? project library target =
      if library.kind = .platforms ∧ project.name ≠ target.project then none
      else some (buildRole p.settings.coreProject project library) := by
  unfold libraryRole? buildRole
  cases library.kind with
  | primitives => simp
  | platforms =>
    by_cases howner : project.name = target.project
    · simp [howner]
    · simp [howner]
  | devices | cards | adapters | assemblies | components => simp

/-- The job of a task for a library, if there is a stage for it. -/
def libraryTaskJob (p : Plan) (host : String) (target : Platform) (project : Project) (library : Library)
    (task : HardwareTask) : Except PlanError Job :=
  p.libraryJob host target project library (task.role p) (task.command p host target)

lemma libraryJobs_eq_mapM (project : Project) (library : Library) :
    p.libraryJobs host target project library =
      (libraryTasks target project library).mapM (libraryTaskJob p host target project library) := by
  have htestable : library.isTestable = decide (library.kind = .components) := by
    unfold Library.isTestable LibraryKind.isTestable
    cases library.kind <;> rfl
  unfold libraryJobs libraryTasks
  rw [libraryRole?_eq, htestable]
  by_cases hforeign : library.kind = .platforms ∧ project.name ≠ target.project
  · rw [if_pos hforeign, if_pos hforeign]
    rfl
  · rw [if_neg hforeign, if_neg hforeign]
    by_cases hcomponents : library.kind = .components
    · simp [hcomponents, libraryTaskJob, HardwareTask.role, HardwareTask.command]
    · simp [hcomponents, libraryTaskJob, HardwareTask.role, HardwareTask.command]

section Task

variable {project : Project} {library : Library} {task : HardwareTask}
  (htask : task ∈ libraryTasks target project library)

include htask

/-- Every task of a library is called after its project and label. -/
lemma parts_of_libraryTasks :
    task.parts host target = [project.name, library.label, host, target.name] ∧
      task.platforms host target = [host, target.name] := by
  unfold libraryTasks at htask
  split at htask
  · cases htask
  · split at htask
    · simp only [List.mem_cons, List.not_mem_nil, or_false] at htask
      rcases htask with rfl | rfl | rfl <;> exact ⟨rfl, rfl⟩
    · rw [List.mem_singleton.mp htask]
      exact ⟨rfl, rfl⟩

lemma libraryTaskJob_eq_ok {job : Job} (h : libraryTaskJob p host target project library task = .ok job) :
    Carries p host target task job := by
  unfold libraryTaskJob libraryJob at h
  split at h
  · cases h
  · rename_i stage hstage
    cases h
    obtain ⟨hparts, hplatforms⟩ := parts_of_libraryTasks htask
    refine ⟨hstage, ?_⟩
    unfold HardwareTask.jobIn
    rw [hparts, hplatforms]
    rfl

omit htask in
lemma libraryTaskJob_eq_error {error : PlanError} :
    libraryTaskJob p host target project library task = .error error ↔
      (∀ stage ∈ p.catalog.hdl, stage.role ≠ task.role p) ∧
        error = .unbuildableLibrary project.name library.name library.kind .hdl := by
  rw [← stageFor?_eq_none]
  unfold libraryTaskJob libraryJob
  cases p.catalog.stageFor? .hdl (task.role p) with
  | none => simp [eq_comm]
  | some stage => simp

omit htask in
lemma libraryTaskJob_succeeds_iff :
    (∃ job, libraryTaskJob p host target project library task = .ok job) ↔
      ∃ stage ∈ p.catalog.hdl, stage.role = task.role p := by
  have hstage : (∃ stage, p.catalog.stageFor? .hdl (task.role p) = some stage) ↔
      ∃ stage ∈ p.catalog.hdl, stage.role = task.role p :=
    stageFor?_succeeds_iff
  rw [← hstage]
  unfold libraryTaskJob libraryJob
  cases p.catalog.stageFor? .hdl (task.role p) with
  | none => simp
  | some stage => simp

end Task

section Library

variable {project : Project} {library : Library}

lemma libraryJobs_eq_ok {jobs : List Job} (h : p.libraryJobs host target project library = .ok jobs) :
    List.Forall₂ (Carries p host target) (libraryTasks target project library) jobs := by
  rw [libraryJobs_eq_mapM, mapM_eq_ok, List.forall₂_iff_zip] at h
  refine List.forall₂_iff_zip.mpr ⟨h.1, fun hzip => ?_⟩
  exact libraryTaskJob_eq_ok (List.of_mem_zip hzip).1 (h.2 hzip)

lemma libraryJobs_succeeds_iff :
    (∃ jobs, p.libraryJobs host target project library = .ok jobs) ↔ ¬LacksStage p target project library := by
  rw [libraryJobs_eq_mapM, mapM_succeeds_iff]
  simp [libraryTaskJob_succeeds_iff, LacksStage]

/-- Whichever task it is, the error tells the library alone. -/
lemma libraryJobs_eq_error {error : PlanError} :
    p.libraryJobs host target project library = .error error ↔ LacksStage p target project library ∧
      error = .unbuildableLibrary project.name library.name library.kind .hdl := by
  constructor
  · intro h
    have hlacks : LacksStage p target project library := by
      by_contra hnot
      obtain ⟨jobs, hjobs⟩ := libraryJobs_succeeds_iff.mpr hnot
      cases h.symm.trans hjobs
    rw [libraryJobs_eq_mapM, mapM_eq_error] at h
    obtain ⟨_, _, _, _, _, herror⟩ := h
    exact ⟨hlacks, (libraryTaskJob_eq_error.mp herror).2⟩
  · rintro ⟨hlacks, rfl⟩
    cases hjobs : p.libraryJobs host target project library with
    | ok jobs => exact absurd hlacks (libraryJobs_succeeds_iff.mp ⟨jobs, hjobs⟩)
    | error error =>
      rw [libraryJobs_eq_mapM, mapM_eq_error] at hjobs
      obtain ⟨_, _, _, _, _, herror⟩ := hjobs
      rw [(libraryTaskJob_eq_error.mp herror).2]

end Library

variable {libraries : List (Project × Library)}

lemma allLibraryJobs_eq_ok {jobs : List Job} (h : p.allLibraryJobs host target libraries = .ok jobs) :
    List.Forall₂ (Carries p host target)
      (libraries.flatMap fun owned => libraryTasks target owned.1 owned.2) jobs := by
  induction libraries generalizing jobs with
  | nil =>
    cases h
    exact .nil
  | cons owned libraries ih =>
    simp only [allLibraryJobs, bind_eq_ok, pure_eq_ok] at h
    obtain ⟨own, hown, rest, hrest, rfl⟩ := h
    exact List.rel_append (libraryJobs_eq_ok hown) (ih hrest)

/-- The first library that lacks a stage stops the rest. -/
lemma allLibraryJobs_eq_error {error : PlanError} :
    p.allLibraryJobs host target libraries = .error error ↔
      ∃ before project library after, libraries = before ++ (project, library) :: after ∧
        (∀ owned ∈ before, ¬LacksStage p target owned.1 owned.2) ∧ LacksStage p target project library ∧
        error = .unbuildableLibrary project.name library.name library.kind .hdl := by
  have hmapM : p.allLibraryJobs host target libraries =
      List.flatten <$> libraries.mapM fun owned => p.libraryJobs host target owned.1 owned.2 := by
    induction libraries with
    | nil => rfl
    | cons owned libraries ih =>
      simp [allLibraryJobs, ih]
  have herror : ∀ lists : Except PlanError (List (List Job)),
      List.flatten <$> lists = .error error ↔ lists = .error error := by
    intro lists
    cases lists with
    | ok lists => simp [Functor.map, Except.map]
    | error error => simp [Functor.map, Except.map]
  rw [hmapM, herror, mapM_eq_error]
  simp only [libraryJobs_succeeds_iff, libraryJobs_eq_error, Prod.exists]

end Libraries

/-! ### Jobs of a child -/

/-- The links of a target change neither its tasks nor their jobs. -/
lemma carries_withLinks {p : Plan} {host : String} {target : Platform} {directive : Directive} {known : NameSet}
    {task : HardwareTask} {job : Job} (h : Carries p host (target.withLinks directive known) task job) :
    Carries p host target task job := by
  refine ⟨h.stage, h.eq_jobIn.trans ?_⟩
  cases task <;> rfl

section Child

variable {p : Plan} {host platform : String} {target : Platform}

lemma cardJobs_eq_ok {jobs : List Job}
    (h : p.cardJobs host (target.withLinks p.directive p.inventory.platformNames) = .ok jobs) :
    List.Forall₂ (Carries p host target) (cardTasks p target) jobs := by
  have hsame : (target.withLinks p.directive p.inventory.platformNames).isSimulator = target.isSimulator := rfl
  unfold cardJobs at h
  rw [linkedSoftware_withLinks, hsame] at h
  unfold cardTasks
  by_cases hsimulator : target.isSimulator = true
  · rw [if_pos hsimulator, pure_eq_ok] at h
    rw [if_pos hsimulator, ← h]
    exact .nil
  · rw [if_neg hsimulator] at h ⊢
    simp only [bind_eq_ok, pure_eq_ok, stage_eq_ok] at h
    obtain ⟨stage, hstage, rfl⟩ := h
    rw [List.forall₂_map_left_iff, List.forall₂_map_right_iff, List.forall₂_same]
    exact fun software _ => ⟨hstage, rfl⟩

/-- Sorting tasks and their jobs by stage keeps them side by side. -/
lemma carries_sorted {jobs : List Job} (h : List.Forall₂ (Carries p host target) (hardwareTasks p target) jobs) :
    List.Forall₂ (Carries p host target) (tasksByStage p target) (inStageOrder (p.catalog.names .hdl) jobs) := by
  have hstages : ∀ job ∈ jobs, job.stage ∈ p.catalog.names .hdl := by
    intro job hjob
    obtain ⟨task, _, hcarries⟩ := exists_of_forall₂ h.flip hjob
    exact mem_names_of_stageFor? hcarries.stage
  rw [inStageOrder_eq_flatMap hstages]
  unfold tasksByStage
  induction (p.catalog.names .hdl).eraseDups with
  | nil => exact .nil
  | cons stage stages ih =>
    refine List.rel_append (List.rel_filter ?_ h) ih
    intro task job hcarries
    simp [hcarries.stage]

lemma tasksByStage_perm {jobs : List Job} (h : List.Forall₂ (Carries p host target) (hardwareTasks p target) jobs) :
    (tasksByStage p target).Perm (hardwareTasks p target) := by
  have hbins : ((p.catalog.names .hdl).eraseDups.map some).Nodup :=
    (nodup_eraseDups _).map fun _ _ => Option.some.inj
  have hperm := flatMap_filter_perm (fun task : HardwareTask => p.catalog.stageFor? .hdl (task.role p))
    (hardwareTasks p target) hbins
  rw [List.flatMap_map] at hperm
  -- every task has a bin as it has a job
  have hall : (hardwareTasks p target).filter (fun task =>
      ((p.catalog.names .hdl).eraseDups.map some).contains (p.catalog.stageFor? .hdl (task.role p))) =
      hardwareTasks p target := by
    rw [List.filter_eq_self]
    intro task htask
    obtain ⟨job, _, hcarries⟩ := exists_of_forall₂ h htask
    rw [hcarries.stage]
    simpa using mem_names_of_stageFor? hcarries.stage
  rwa [hall] at hperm

lemma hardwareChild_eq_ok {pipeline : Pipeline}
    (h : p.hardwareChild host (target.withLinks p.directive p.inventory.platformNames) = .ok pipeline) :
    pipeline.kind = .hdl ∧ pipeline.stages = p.catalog.names .hdl ∧
      (tasksByStage p target).Perm (hardwareTasks p target) ∧
      List.Forall₂ (Carries p host target) (tasksByStage p target) pipeline.jobs := by
  simp only [hardwareChild, bind_eq_ok] at h
  obtain ⟨libraries, hlibraries, cards, hcards, h⟩ := h
  obtain ⟨hkind, hstages, hjobs⟩ := pipelineOf_eq_ok h
  have hcarries : List.Forall₂ (Carries p host target) (hardwareTasks p target) (libraries ++ cards) :=
    List.rel_append ((allLibraryJobs_eq_ok hlibraries).imp fun _ _ => carries_withLinks) (cardJobs_eq_ok hcards)
  rw [hjobs]
  exact ⟨hkind, hstages, tasksByStage_perm hcarries, carries_sorted hcarries⟩

/-! ### Children that are not generated -/

omit target in
/-- Placing jobs goes wrong for other reasons than a library. -/
lemma pipelineOf_ne_unbuildable {kind kind' : PipelineKind} {jobs : List Job} {project library : String}
    {libraryKind : LibraryKind} :
    p.pipelineOf kind jobs ≠ .error (.unbuildableLibrary project library libraryKind kind') := by
  unfold pipelineOf
  rw [Ne, foldlM_eq_error]
  rintro ⟨_, _, _, _, _, _, hplace⟩
  unfold place at hplace
  split at hplace
  · cases hplace
  · cases hplace

lemma cardJobs_ne_unbuildable {kind' : PipelineKind} {project library : String} {libraryKind : LibraryKind} :
    p.cardJobs host target ≠ .error (.unbuildableLibrary project library libraryKind kind') := by
  unfold cardJobs stage
  by_cases hsimulator : target.isSimulator = true
  · simp [hsimulator, pure, Except.pure]
  · cases p.catalog.stageFor? .hdl .buildSdcard with
    | none => simp [hsimulator, bind, Except.bind]
    | some stage => simp [hsimulator, bind, Except.bind, pure, Except.pure]

lemma hardwareChild_eq_unbuildable {kind' : PipelineKind} {project library : String} {libraryKind : LibraryKind} :
    p.hardwareChild host target = .error (.unbuildableLibrary project library libraryKind kind') ↔
      p.allLibraryJobs host target (librariesOf p.inventory) =
        .error (.unbuildableLibrary project library libraryKind kind') := by
  simp [hardwareChild, bind_eq_error, cardJobs_ne_unbuildable, pipelineOf_ne_unbuildable]

lemma child_of_not_host (hhost : ¬∃ found, p.inventory.platform? host = some found ∧ found.isHost = true) :
    p.child host platform = .error (.notAHost host) := by
  have hnone : (p.inventory.platform? host).filter (·.isHost) = none := by
    rw [Option.filter_eq_none_iff]
    exact fun found hfound hisHost => hhost ⟨found, hfound, hisHost⟩
  rw [Plan.child, hnone]

end Child

/-- The jobs of a hardware child carry out the tasks of its target, all of them and nothing else, in the
order of the stages; and if there is no child for want of a stage for some library, this is the first
library in the order of the tree that has a task without a stage. -/
theorem hardwareChild_exact {p : Plan} {platform : String} {target : Platform}
    (htarget : p.inventory.platform? platform = some target) (hmodel : target.model = .hdl) (host : String) :
    (∀ pipeline, p.child host platform = .ok pipeline →
      pipeline.kind = .hdl ∧ pipeline.stages = p.catalog.names .hdl ∧
        (tasksByStage p target).Perm (hardwareTasks p target) ∧
        List.Forall₂ (Carries p host target) (tasksByStage p target) pipeline.jobs) ∧
    ∀ project library kind pipelineKind,
      p.child host platform = .error (.unbuildableLibrary project library kind pipelineKind) ↔
        (∃ found, p.inventory.platform? host = some found ∧ found.isHost = true) ∧ pipelineKind = .hdl ∧
        ∃ before owner missing after, librariesOf p.inventory = before ++ (owner, missing) :: after ∧
          owner.name = project ∧ missing.name = library ∧ missing.kind = kind ∧
          LacksStage p target owner missing ∧ ∀ owned ∈ before, ¬LacksStage p target owned.1 owned.2 := by
  by_cases hhost : ∃ found, p.inventory.platform? host = some found ∧ found.isHost = true
  · obtain ⟨found, hfound, hisHost⟩ := hhost
    have hchild := child_eq hfound hisHost htarget
    rw [hmodel] at hchild
    dsimp only at hchild
    refine ⟨fun pipeline h => hardwareChild_eq_ok (hchild.symm.trans h), fun project library kind pipelineKind => ?_⟩
    rw [hchild, hardwareChild_eq_unbuildable, allLibraryJobs_eq_error]
    simp only [PlanError.unbuildableLibrary.injEq]
    constructor
    · rintro ⟨before, owner, missing, after, heq, hbefore, hlacks, rfl, rfl, rfl, rfl⟩
      exact ⟨⟨found, hfound, hisHost⟩, rfl, before, owner, missing, after, heq, rfl, rfl, rfl, hlacks, hbefore⟩
    · rintro ⟨_, rfl, before, owner, missing, after, heq, rfl, rfl, rfl, hlacks, hbefore⟩
      exact ⟨before, owner, missing, after, heq, hbefore, hlacks, rfl, rfl, rfl, rfl⟩
  · rw [child_of_not_host hhost]
    refine ⟨nofun, fun project library kind pipelineKind => ⟨nofun, ?_⟩⟩
    rintro ⟨hfound, _⟩
    exact absurd hfound hhost

def boardTarget : Platform := ⟨"alst4", "core", .hdl .cross false, ∅⟩

def boardDevices : Library := ⟨"devices", .devices, "hdl/devices"⟩

def boardComponents : Library := ⟨"devices", .components, "components/devices"⟩

def boardProject : Project := ⟨"core", [boardDevices, boardComponents]⟩

/-- The plan with no stage for building tests. -/
def untestedPlan : Plan :=
  { boardPlan with catalog := { Catalog.v2 with hdl := Catalog.v2.hdl.filter (·.role != .buildTests) } }

/-- One library is built, the other built and tested, and the host gets a card. Without a stage for tests
the second library cannot be built, though there is a stage for building it. -/
theorem hardwareChild_exact_board :
    (∃ child, boardPlan.child "centos7" "alst4" = .ok child ∧
      List.Forall₂ (Carries boardPlan "centos7" boardTarget)
        [.build boardProject boardDevices, .build boardProject boardComponents, .writeCard "centos7",
          .buildTests boardProject boardComponents, .test boardProject boardComponents] child.jobs) ∧
    untestedPlan.child "centos7" "alst4" = .error (.unbuildableLibrary "core" "devices" .components .hdl) := by
  have htarget : boardPlan.inventory.platform? "alst4" = some boardTarget := by decide
  constructor
  · obtain ⟨child, hchild⟩ : ∃ child, boardPlan.child "centos7" "alst4" = .ok child :=
      succeeds_of_isSome (by decide +kernel)
    obtain ⟨_, _, _, hcarries⟩ := (hardwareChild_exact htarget rfl "centos7").1 child hchild
    have htasks : tasksByStage boardPlan boardTarget =
        [.build boardProject boardDevices, .build boardProject boardComponents, .writeCard "centos7",
          .buildTests boardProject boardComponents, .test boardProject boardComponents] := by
      decide +kernel
    exact ⟨child, hchild, htasks ▸ hcarries⟩
  · refine ((hardwareChild_exact (p := untestedPlan) htarget rfl "centos7").2 _ _ _ _).mpr ⟨?_, rfl, ?_⟩
    · exact ⟨⟨"centos7", "core", .rcc .host, ∅⟩, by decide, rfl⟩
    · refine ⟨[(boardProject, boardDevices)], boardProject, boardComponents, [], rfl, rfl, rfl, rfl, ?_, ?_⟩
      · exact ⟨.buildTests boardProject boardComponents, by decide, by decide⟩
      · simp only [List.mem_singleton, forall_eq]
        unfold LacksStage
        decide

end CrossBuild.Proofs
