import CrossBuild.Plan.Child
import CrossBuild.Proofs.KeyedJobs
import CrossBuild.Proofs.SurveyedTree

/-!
# Children that can be generated

A job of the first pipeline that describes a child runs later, on its own, and nothing is to go wrong
then. If the tree was surveyed, its names have no colons and the catalog has the stages for children,
then every child that the first pipeline describes has a pipeline and a descriptor: each job has a stage,
and no two jobs have one name, as they differ in role, project, label or software platform.
-/

namespace CrossBuild.Proofs
open Plan

/-! ### Catalogs for children -/

/-- The roles of jobs that build a library, and of those that test one or write a card. -/
def libraryRoles : List StageRole :=
  [.buildPrimitivesCore, .buildPrimitives, .buildLibraries, .buildPlatforms, .buildAssemblies]

def hardwareRoles : List StageRole := libraryRoles ++ [.buildSdcard, .buildTests, .test]

/-- A catalog with all stages that the jobs of children need. -/
structure SuitsChildren (c : Catalog) : Prop where
  valid : c.validate = .ok ()
  parts : ∀ stage ∈ c.rcc ++ c.hdl, IsPart stage.name
  software : ∀ role ∈ stepRoles, ∃ stage ∈ c.rcc, stage.role = role
  hardware : ∀ role ∈ hardwareRoles, ∃ stage ∈ c.hdl, stage.role = role

lemma SuitsChildren.software_stageFor? {c : Catalog} (h : SuitsChildren c) {role : StageRole}
    (hrole : role ∈ stepRoles) : ∃ stage, c.stageFor? .rcc role = some stage :=
  stageFor?_succeeds_iff.mpr (h.software role hrole)

lemma SuitsChildren.hardware_stageFor? {c : Catalog} (h : SuitsChildren c) {role : StageRole}
    (hrole : role ∈ hardwareRoles) : ∃ stage, c.stageFor? .hdl role = some stage :=
  stageFor?_succeeds_iff.mpr (h.hardware role hrole)

lemma SuitsChildren.nodup_names {c : Catalog} (h : SuitsChildren c) (kind : PipelineKind) :
    (c.names kind).Nodup :=
  (validate_eq_ok.mp h.valid kind).2

/-! ### Jobs that make a child -/

/-- Jobs for some keys, none of which starts anything. -/
structure MakesChild (p : Plan) (kind : PipelineKind) (keys : List JobKey) (jobs : List Job) : Prop where
  hasKeys : List.Forall₂ (HasKey p.catalog kind) keys jobs
  alone : ∀ job ∈ jobs, job.trigger = none

lemma makesChild_nil (p : Plan) (kind : PipelineKind) : MakesChild p kind [] [] := ⟨.nil, by simp⟩

lemma MakesChild.append {p : Plan} {kind : PipelineKind} {keys keys' : List JobKey} {jobs jobs' : List Job}
    (h : MakesChild p kind keys jobs) (h' : MakesChild p kind keys' jobs') :
    MakesChild p kind (keys ++ keys') (jobs ++ jobs') := by
  refine ⟨List.rel_append h.hasKeys h'.hasKeys, fun job hjob => ?_⟩
  rcases List.mem_append.mp hjob with hjob | hjob
  · exact h.alone job hjob
  · exact h'.alone job hjob

lemma makesChild_stagedJob {p : Plan} {kind : PipelineKind} {role : StageRole} {stage : String}
    (hstage : p.catalog.stageFor? kind role = some stage) (parts includes : List String) (build : Command)
    (host : String) :
    MakesChild p kind [(role, parts)] [p.stagedJob kind stage (jobName (stage :: parts)) includes build host] :=
  ⟨.cons ⟨hstage, rfl⟩ .nil, fun job hjob => by rw [List.mem_singleton.mp hjob]; rfl⟩

/-- A child of some kind that knows the run it belongs to and has a descriptor. -/
structure IsUsableChild (p : Plan) (kind : PipelineKind) (pipeline : Pipeline) : Prop where
  kind : pipeline.kind = kind
  upstream : pipeline.vars.get? "PIPEGEN_UPSTREAM_PIPELINE_ID" = some p.run.pipelineId
  names : (pipeline.jobs.map (·.name)).Nodup
  described : ∃ value, Descriptor.ofPipeline pipeline = .ok value

lemma upstream_of_pipelineOf {p : Plan} {kind : PipelineKind} (hkind : kind ≠ .host) {jobs : List Job}
    {pipeline : Pipeline} (h : p.pipelineOf kind jobs = .ok pipeline) :
    pipeline.vars.get? "PIPEGEN_UPSTREAM_PIPELINE_ID" = some p.run.pipelineId := by
  have hvars : pipeline.vars =
      (∅ : SortedMap String String).insert "PIPEGEN_UPSTREAM_PIPELINE_ID" p.run.pipelineId := by
    unfold pipelineOf at h
    have hnot : (kind == .host) = false := by simpa using hkind
    simp only [hnot] at h
    rw [foldlM_place h]
    rfl
  rw [hvars, get?_insert, if_pos rfl]

/-- Jobs are accepted and described if their keys differ and the parts of their names are proper. -/
lemma MakesChild.succeeds {p : Plan} {kind : PipelineKind} {keys : List JobKey} {jobs : List Job}
    (h : MakesChild p kind keys jobs) (hkind : kind ≠ .host) (hdistinct : (p.catalog.names kind).Nodup)
    (hstages : ∀ stage ∈ p.catalog.stages kind, IsPart stage.name) (hkeys : keys.Nodup)
    (hparts : ∀ key ∈ keys, key.2 ≠ [] ∧ ∀ part ∈ key.2, IsPart part) :
    ∃ pipeline, p.pipelineOf kind jobs = .ok pipeline ∧ IsUsableChild p kind pipeline := by
  have hnames := nodup_names_of_keys hdistinct hstages h.hasKeys hkeys fun key hkey => (hparts key hkey).2
  have hplace : Placeable (p.catalog.names kind) jobs := by
    refine ⟨fun job hjob => ?_, hnames, fun job hjob target htarget => ?_⟩
    · obtain ⟨key, _, hkey⟩ := exists_of_forall₂ h.hasKeys.flip hjob
      exact mem_names_of_stageFor? hkey.stage
    · rw [Pipeline.prerequisite?, h.alone job hjob] at htarget
      cases htarget
  obtain ⟨pipeline, hpipeline⟩ := pipelineOf_succeeds_iff.mpr hplace
  have hperm : pipeline.jobs.Perm jobs := by
    rw [(pipelineOf_eq_ok hpipeline).2.2]
    exact inStageOrder_perm _ _
  have hnodup := (hperm.map (·.name)).nodup_iff.mpr hnames
  have hfree : ∀ job ∈ pipeline.jobs, job.name ∉ Descriptor.reservedKeys := by
    intro job hjob
    obtain ⟨key, hmem, hkey⟩ := exists_of_forall₂ h.hasKeys.flip (hperm.mem_iff.mp hjob)
    exact hkey.notReserved hstages (hparts key hmem).2 (hparts key hmem).1
  exact ⟨pipeline, hpipeline, (pipelineOf_eq_ok hpipeline).1, upstream_of_pipelineOf hkind hpipeline,
    hnodup, ofPipeline_succeeds_iff.mpr ⟨hfree, hnodup⟩⟩

/-! ### Software -/

def softwareKeys (host : String) (target : Platform) : List JobKey := stepRoles.map (·, [host, target.name])

lemma stepJobs_make {p : Plan} {kind : PipelineKind} (parts includes : List String) (host : String)
    {steps : List (StageRole × Command)}
    (h : ∀ step ∈ steps, ∃ stage, p.catalog.stageFor? kind step.1 = some stage) :
    ∃ jobs, p.stepJobs kind parts includes host steps = .ok jobs ∧
      MakesChild p kind (steps.map (·.1, parts)) jobs := by
  induction steps with
  | nil => exact ⟨[], rfl, makesChild_nil p kind⟩
  | cons step steps ih =>
    obtain ⟨⟨stage, hstage⟩, hrest⟩ := List.forall_mem_cons.mp h
    obtain ⟨jobs, hjobs, hmake⟩ := ih hrest
    refine ⟨_, ?_, (makesChild_stagedJob hstage parts includes step.2 host).append hmake⟩
    simp only [stepJobs, bind_eq_ok, stage_eq_ok, pure_eq_ok]
    exact ⟨stage, hstage, jobs, hjobs, rfl⟩

/-! ### Hardware -/

/-- The jobs of one library have its project and label in their names. -/
def libraryKeys (p : Plan) (host : String) (target : Platform) (project : Project) (library : Library) :
    List JobKey :=
  match p.libraryRole? project library target with
  | none => []
  | some role => (if library.isTestable then [role, .buildTests, .test] else [role]).map
      (·, [project.name, library.label, host, target.name])

def allLibraryKeys (p : Plan) (host : String) (target : Platform) : List JobKey :=
  (librariesOf p.inventory).flatMap fun owned => libraryKeys p host target owned.1 owned.2

def cardKeys (p : Plan) (host : String) (target : Platform) : List JobKey :=
  if target.isSimulator then []
  else (p.linkedSoftware target).map fun software => (.buildSdcard, [host, target.name, software])

lemma libraryRole?_mem {p : Plan} {project : Project} {library : Library} {target : Platform}
    {role : StageRole} (h : p.libraryRole? project library target = some role) : role ∈ libraryRoles := by
  unfold libraryRole? at h
  split at h
  · split at h <;> cases h <;> decide
  · split at h
    · cases h
      decide
    · cases h
  · cases h
    decide
  all_goals
    cases h
    decide

section Hardware

variable {p : Plan} (hcatalog : SuitsChildren p.catalog) (host : String) (target : Platform)

include hcatalog

lemma libraryJob_makes (project : Project) (library : Library) {role : StageRole}
    (hrole : role ∈ hardwareRoles) (build : Command) :
    ∃ job, p.libraryJob host target project library role build = .ok job ∧
      MakesChild p .hdl [(role, [project.name, library.label, host, target.name])] [job] := by
  obtain ⟨stage, hstage⟩ := hcatalog.hardware_stageFor? hrole
  unfold libraryJob
  rw [hstage]
  exact ⟨_, rfl, makesChild_stagedJob hstage _ _ build host⟩

lemma libraryJobs_make (project : Project) (library : Library) :
    ∃ jobs, p.libraryJobs host target project library = .ok jobs ∧
      MakesChild p .hdl (libraryKeys p host target project library) jobs := by
  unfold libraryJobs libraryKeys
  cases hrole : p.libraryRole? project library target with
  | none => exact ⟨[], rfl, makesChild_nil p .hdl⟩
  | some role =>
    have hmem : role ∈ hardwareRoles := List.mem_append_left _ (libraryRole?_mem hrole)
    obtain ⟨build, hbuild, hbuildMakes⟩ := libraryJob_makes hcatalog host target project library hmem
      (p.settings.buildCommand (some (p.libraryDir project library)) "build" (hardwareVars host target))
    obtain ⟨tests, htests, htestsMake⟩ := libraryJob_makes hcatalog host target project library
      (by decide : .buildTests ∈ hardwareRoles)
      (p.settings.buildCommand (some (p.libraryDir project library)) "build-tests" (hardwareVars host target))
    obtain ⟨test, htest, htestMakes⟩ := libraryJob_makes hcatalog host target project library
      (by decide : .test ∈ hardwareRoles)
      (p.settings.testCommand (some (p.libraryDir project library)) target host)
    dsimp only
    rw [hbuild, htests, htest]
    cases library.isTestable with
    | false => exact ⟨[build], rfl, hbuildMakes⟩
    | true => exact ⟨[build, tests, test], rfl, hbuildMakes.append (htestsMake.append htestMakes)⟩

lemma allLibraryJobs_make (libraries : List (Project × Library)) :
    ∃ jobs, p.allLibraryJobs host target libraries = .ok jobs ∧
      MakesChild p .hdl (libraries.flatMap fun owned => libraryKeys p host target owned.1 owned.2) jobs := by
  induction libraries with
  | nil => exact ⟨[], rfl, makesChild_nil p .hdl⟩
  | cons owned libraries ih =>
    obtain ⟨project, library⟩ := owned
    obtain ⟨own, hown, hownMake⟩ := libraryJobs_make hcatalog host target project library
    obtain ⟨rest, hrest, hrestMake⟩ := ih
    refine ⟨own ++ rest, ?_, hownMake.append hrestMake⟩
    simp only [allLibraryJobs, bind_eq_ok, pure_eq_ok]
    exact ⟨own, hown, rest, hrest, rfl⟩

lemma cardJobs_make :
    ∃ jobs, p.cardJobs host target = .ok jobs ∧ MakesChild p .hdl (cardKeys p host target) jobs := by
  obtain ⟨stage, hstage⟩ := hcatalog.hardware_stageFor? (by decide : .buildSdcard ∈ hardwareRoles)
  unfold cardJobs cardKeys
  cases target.isSimulator with
  | true => exact ⟨[], rfl, makesChild_nil p .hdl⟩
  | false =>
    rw [stage_eq_ok.mpr hstage]
    refine ⟨_, rfl, ?_⟩
    induction p.linkedSoftware target with
    | nil => exact makesChild_nil p .hdl
    | cons software rest ih => exact (makesChild_stagedJob hstage _ _ _ host).append ih

end Hardware

/-! ### Keys that differ -/

section Keys

variable {p : Plan} (hnamed : IsWellNamed p.inventory) (host : String) (target : Platform)

lemma nodup_libraryKeys (project : Project) (library : Library) :
    (libraryKeys p host target project library).Nodup := by
  unfold libraryKeys
  cases hrole : p.libraryRole? project library target with
  | none => exact List.nodup_nil
  | some role =>
    have hroles : ∀ role ∈ libraryRoles, [role, .buildTests, .test].Nodup := by decide
    have hall := hroles role (libraryRole?_mem hrole)
    have hsome : (if library.isTestable then [role, .buildTests, .test] else [role]).Nodup := by
      cases library.isTestable with
      | true => exact hall
      | false => exact List.nodup_singleton role
    exact hsome.map fun _ _ heq => congrArg Prod.fst heq

lemma parts_of_libraryKeys {project : Project} {library : Library} {key : JobKey}
    (h : key ∈ libraryKeys p host target project library) :
    key.2 = [project.name, library.label, host, target.name] ∧ key.1 ∈ libraryRoles ++ [.buildTests, .test] := by
  unfold libraryKeys at h
  cases hrole : p.libraryRole? project library target with
  | none =>
    rw [hrole] at h
    cases h
  | some role =>
    rw [hrole] at h
    obtain ⟨found, hfound, rfl⟩ := List.mem_map.mp h
    refine ⟨rfl, ?_⟩
    have hmem := libraryRole?_mem hrole
    dsimp only at hfound ⊢
    split at hfound
    · rcases List.mem_cons.mp hfound with rfl | hfound
      · exact List.mem_append_left _ hmem
      · exact List.mem_append_right _ hfound
    · rw [List.mem_singleton.mp hfound]
      exact List.mem_append_left _ hmem

include hnamed

lemma nodup_labelled :
    ((librariesOf p.inventory).map fun owned => (owned.1.name, owned.2.label)).Nodup := by
  rw [librariesOf, List.map_flatMap, List.nodup_flatMap]
  constructor
  · intro project hproject
    rw [List.map_map]
    have hlabels : (project.libraries.map Library.label).Nodup := hnamed.labels project hproject
    have hpairs := hlabels.map (f := Prod.mk project.name) fun _ _ heq => congrArg Prod.snd heq
    rwa [List.map_map] at hpairs
  · refine (List.pairwise_map.mp hnamed.projects).imp fun hne => ?_
    intro pair hpair hother
    simp only [List.mem_map] at hpair hother
    obtain ⟨_, ⟨_, _, rfl⟩, rfl⟩ := hpair
    obtain ⟨_, ⟨_, _, rfl⟩, heq⟩ := hother
    exact hne (congrArg Prod.fst heq).symm

lemma nodup_allLibraryKeys : (allLibraryKeys p host target).Nodup := by
  rw [allLibraryKeys, List.nodup_flatMap]
  refine ⟨fun owned _ => nodup_libraryKeys host target owned.1 owned.2, ?_⟩
  refine (List.pairwise_map.mp (nodup_labelled hnamed)).imp fun hne => ?_
  intro key hkey hother
  have heq := (parts_of_libraryKeys host target hkey).1.symm.trans (parts_of_libraryKeys host target hother).1
  simp only [List.cons.injEq] at heq
  exact hne (Prod.ext heq.1 heq.2.1)

omit hnamed in
lemma nodup_cardKeys : (cardKeys p host target).Nodup := by
  unfold cardKeys
  split
  · exact List.nodup_nil
  · have hsoftware : (p.linkedSoftware target).Nodup := (nodup_keys target.linked).filter _
    exact hsoftware.map fun _ _ heq => by simpa using heq

/-- The role of a card is none of a library. -/
lemma nodup_hardwareKeys : (allLibraryKeys p host target ++ cardKeys p host target).Nodup := by
  rw [List.nodup_append]
  refine ⟨nodup_allLibraryKeys hnamed host target, nodup_cardKeys host target, ?_⟩
  rintro key hkey _ hcard rfl
  obtain ⟨owned, _, hown⟩ := List.mem_flatMap.mp hkey
  have hrole := (parts_of_libraryKeys host target hown).2
  unfold cardKeys at hcard
  split at hcard
  · cases hcard
  · obtain ⟨software, _, rfl⟩ := List.mem_map.mp hcard
    have hnot : StageRole.buildSdcard ∉ libraryRoles ++ [.buildTests, .test] := by decide
    exact hnot hrole

end Keys

/-! ### Children -/

/-- No name in the tree has a colon. -/
structure NoColons (i : Inventory) : Prop where
  projects : ∀ project ∈ i.projects, ':' ∉ project.name.toList
  libraries : ∀ project ∈ i.projects, ∀ library ∈ project.libraries, ':' ∉ library.name.toList
  platforms : ∀ platform ∈ i.platforms, ':' ∉ platform.name.toList

section Children

variable {p : Plan} (hcatalog : SuitsChildren p.catalog) {host : String} (hhost : IsPart host)
  {target : Platform} (htarget : IsPart target.name)

include hcatalog hhost htarget

lemma softwareChild_succeeds :
    ∃ pipeline, p.softwareChild host target = .ok pipeline ∧ IsUsableChild p .rcc pipeline := by
  have hstages : ∀ stage ∈ p.catalog.stages .rcc, IsPart stage.name :=
    fun stage hstage => hcatalog.parts stage (List.mem_append_left _ hstage)
  let vars := [("Platform", target.name), ("HostPlatform", host)]
  let steps := [
    (StageRole.prereqs, p.settings.buildCommand none "prerequisites" vars),
    (StageRole.build, p.settings.buildCommand none "build" vars),
    (StageRole.test, p.settings.testCommand none target host)]
  have hsteps : ∀ step ∈ steps, ∃ stage, p.catalog.stageFor? .rcc step.1 = some stage := by
    intro step hstep
    have hrole : step.1 ∈ steps.map (·.1) := List.mem_map_of_mem hstep
    exact hcatalog.software_stageFor? hrole
  obtain ⟨jobs, hjobs, hmake⟩ := stepJobs_make [host, target.name] (platformGlobs [host, target.name]) host hsteps
  have hmake : MakesChild p .rcc (softwareKeys host target) jobs := hmake
  have hnodup : (softwareKeys host target).Nodup := by
    have hroles : stepRoles.Nodup := by decide
    exact hroles.map fun _ _ heq => congrArg Prod.fst heq
  have hparts : ∀ key ∈ softwareKeys host target, key.2 ≠ [] ∧ ∀ part ∈ key.2, IsPart part := by
    intro key hkey
    obtain ⟨role, _, rfl⟩ := List.mem_map.mp hkey
    exact ⟨List.cons_ne_nil _ _, by simpa using And.intro hhost htarget⟩
  obtain ⟨pipeline, hpipeline, husable⟩ := hmake.succeeds (by decide) (hcatalog.nodup_names .rcc) hstages
    hnodup hparts
  refine ⟨pipeline, ?_, husable⟩
  rw [softwareChild, bind_eq_ok]
  exact ⟨jobs, hjobs, hpipeline⟩

variable (hnamed : IsWellNamed p.inventory) (hcolons : NoColons p.inventory)

include hnamed hcolons

omit hcatalog in
lemma parts_of_hardwareKeys {key : JobKey} (h : key ∈ allLibraryKeys p host target ++ cardKeys p host target) :
    key.2 ≠ [] ∧ ∀ part ∈ key.2, IsPart part := by
  rcases List.mem_append.mp h with h | h
  · obtain ⟨⟨project, library⟩, howned, hkey⟩ := List.mem_flatMap.mp h
    obtain ⟨found, hproject, hpair⟩ := List.mem_flatMap.mp howned
    obtain ⟨_, hlibrary, heq⟩ := List.mem_map.mp hpair
    cases heq
    obtain ⟨hne, hlibraries⟩ := hnamed.nonempty.1 project hproject
    have hname : IsPart project.name := ⟨hne, hcolons.projects project hproject⟩
    have hlabel : IsPart library.label :=
      isPart_label (hlibraries library hlibrary) (hcolons.libraries project hproject library hlibrary)
    rw [(parts_of_libraryKeys host target hkey).1]
    exact ⟨List.cons_ne_nil _ _, by simp [hname, hlabel, hhost, htarget]⟩
  · unfold cardKeys at h
    split at h
    · cases h
    · obtain ⟨software, hsoftware, rfl⟩ := List.mem_map.mp h
      obtain ⟨platform, hplatform, _⟩ := (Option.any_eq_true _ _).mp (List.mem_filter.mp hsoftware).2
      obtain ⟨hmem, rfl⟩ := (platform?_eq_some hnamed.platforms).mp hplatform
      have hname : IsPart platform.name := ⟨hnamed.nonempty.2 platform hmem, hcolons.platforms platform hmem⟩
      exact ⟨List.cons_ne_nil _ _, by simp [hname, hhost, htarget]⟩

lemma hardwareChild_succeeds :
    ∃ pipeline, p.hardwareChild host target = .ok pipeline ∧ IsUsableChild p .hdl pipeline := by
  have hstages : ∀ stage ∈ p.catalog.stages .hdl, IsPart stage.name :=
    fun stage hstage => hcatalog.parts stage (List.mem_append_right _ hstage)
  obtain ⟨libraries, hlibraries, hmake⟩ := allLibraryJobs_make hcatalog host target (librariesOf p.inventory)
  obtain ⟨cards, hcards, hcardsMake⟩ := cardJobs_make hcatalog host target
  obtain ⟨pipeline, hpipeline, husable⟩ := (hmake.append hcardsMake).succeeds (by decide)
    (hcatalog.nodup_names .hdl) hstages (nodup_hardwareKeys hnamed host target)
    fun key hkey => parts_of_hardwareKeys hhost htarget hnamed hcolons hkey
  refine ⟨pipeline, ?_, husable⟩
  simp only [hardwareChild, bind_eq_ok]
  exact ⟨libraries, hlibraries, cards, hcards, hpipeline⟩

end Children

/-! ### Children that the first pipeline describes -/

lemma describeWords_inj {p : Plan} {host platform output host' platform' output' : String}
    (h : describeWords p host platform output = describeWords p host' platform' output') :
    host = host' ∧ platform = platform' := by
  simp only [describeWords, List.cons.injEq, List.append_cancel_left_eq, and_true, true_and] at h
  exact ⟨h.1, h.2.1⟩

/-- What a job does tells the host and the platform that it describes a child for. -/
lemma eq_describe_of_work {p : Plan} {purpose : Purpose} {job : Job} (h : Fulfills p purpose job)
    {host platform : String} (hwork : DoesWork p job (.describe host platform)) :
    purpose = .describe host platform := by
  obtain ⟨htrigger, hartifacts, hscript⟩ := hwork
  have hown := h.work
  cases purpose with
  | step role other =>
    obtain ⟨stage, name, build, rfl⟩ := hown.eq_stagedJob
    cases hartifacts
  | describe host' platform' =>
    have hwords := hown.2.2.symm.trans hscript
    simp only [List.cons.injEq, Option.some_inj, and_true] at hwords
    rw [(describeWords_inj hwords).1, (describeWords_inj hwords).2]
  | start other target =>
    cases target with
    | here platform' =>
      obtain ⟨_, _, hchild⟩ := hown
      cases htrigger.symm.trans hchild
    | remote name project branch => cases htrigger.symm.trans hown.1

lemma exists_of_describe_mem {selection : Selection} {host platform : String}
    (h : .describe host platform ∈ purposes selection) :
    ∃ found ∈ selection.hosts, found.name = host ∧
      ∃ target, .here target ∈ selection.targetsOf host ∧ target.name = platform := by
  obtain ⟨found, hfound, hmem⟩ := List.mem_flatMap.mp h
  refine ⟨found, hfound, ?_⟩
  rcases List.mem_append.mp hmem with hstep | hmem
  · simp at hstep
  · obtain ⟨target, htarget, hdescribe⟩ := List.mem_flatMap.mp hmem
    cases target with
    | here target =>
      obtain ⟨rfl, rfl⟩ : host = found.name ∧ platform = target.name := by
        simpa [targetPurposes] using hdescribe
      exact ⟨rfl, target, htarget, rfl⟩
    | remote name project branch => simp [targetPurposes] at hdescribe

/-- The tree has the host and the platform that a job of the first pipeline describes a child for. -/
lemma found_of_describe {p : Plan} (hunique : (p.inventory.platforms.map (·.name)).Nodup)
    {selection : Selection} (hselect : p.select = .ok selection) {host platform : String}
    (h : .describe host platform ∈ purposes selection) :
    (∃ found, p.inventory.platform? host = some found ∧ found.isHost = true) ∧
      ∃ target, p.inventory.platform? platform = some target := by
  obtain ⟨hostPlatform, hhost, rfl, target, htarget, rfl⟩ := exists_of_describe_mem h
  rw [(select_eq_ok hselect).1] at hhost
  obtain ⟨hrelinked, hrole⟩ := isRelinked_of_mem_hosts hhost
  obtain ⟨links, hmem⟩ := hrelinked.mem
  have hwanted : hostPlatform.name ∈ wantedHosts p := by
    rw [← names_hosts hunique]
    exact List.mem_map_of_mem hhost
  have hoffered := ((mem_targetsOf hunique hselect hwanted _).mp htarget).2.1
  cases hoffered with
  | here htargetRelinked _ =>
    obtain ⟨targetLinks, htargetMem⟩ := htargetRelinked.mem
    exact ⟨⟨_, (platform?_eq_some hunique).mpr ⟨hmem, rfl⟩, (isHost_iff _).mpr hrole⟩,
      _, (platform?_eq_some hunique).mpr ⟨htargetMem, rfl⟩⟩

/-- The kind of the pipeline that builds a target. -/
def childKind (target : Platform) : PipelineKind :=
  match target.model with
  | .rcc => .rcc
  | .hdl => .hdl

lemma child_eq {p : Plan} {host platform : String} {found target : Platform}
    (hfound : p.inventory.platform? host = some found) (hisHost : found.isHost = true)
    (htarget : p.inventory.platform? platform = some target) :
    p.child host platform =
      match target.model with
      | .rcc => p.softwareChild host (target.withLinks p.directive p.inventory.platformNames)
      | .hdl => p.hardwareChild host (target.withLinks p.directive p.inventory.platformNames) := by
  have hhost : (p.inventory.platform? host).filter (·.isHost) = some found := by
    rw [hfound, Option.filter_some, if_pos hisHost]
  rw [Plan.child, hhost, htarget]
  rfl

/-- Every child that the first pipeline of a surveyed tree describes can be generated and described,
whatever the settings, the run and the directive are. -/
theorem child_succeeds {p : Plan} {files : FileTree} {root : String} (hfiles : HasFileNames files)
    (hsurvey : Inventory.survey files root = .ok p.inventory) (hcolons : NoColons p.inventory)
    (hcatalog : SuitsChildren p.catalog) {pipeline : Pipeline} (htop : p.topLevel = .ok pipeline)
    {job : Job} (hjob : job ∈ pipeline.jobs) {host platform : String}
    (hwork : DoesWork p job (.describe host platform)) :
    ∃ target child, p.inventory.platform? platform = some target ∧ p.child host platform = .ok child ∧
      IsUsableChild p (childKind target) child := by
  have hnamed := survey_isWellNamed hfiles hsurvey
  obtain ⟨selection, jobs, hselect, hfulfills, _, _, hjobs⟩ := topLevel_jobs htop
  rw [hjobs, mem_inStageOrder] at hjob
  obtain ⟨purpose, hpurpose, hown⟩ := exists_of_forall₂ hfulfills.flip hjob
  rw [eq_describe_of_work hown hwork] at hpurpose
  obtain ⟨⟨found, hfound, hisHost⟩, target, htarget⟩ := found_of_describe hnamed.platforms hselect hpurpose
  have hpart : ∀ {name : String} {platform : Platform}, p.inventory.platform? name = some platform →
      IsPart platform.name ∧ platform.name = name := by
    intro name platform hsome
    obtain ⟨hmem, hname⟩ := (platform?_eq_some hnamed.platforms).mp hsome
    exact ⟨⟨hnamed.nonempty.2 platform hmem, hcolons.platforms platform hmem⟩, hname⟩
  have hhostPart : IsPart host := (hpart hfound).2 ▸ (hpart hfound).1
  have htargetPart : IsPart (target.withLinks p.directive p.inventory.platformNames).name := (hpart htarget).1
  have hchild := child_eq hfound hisHost htarget
  unfold childKind
  cases hmodel : target.model with
  | rcc =>
    rw [hmodel] at hchild
    obtain ⟨child, hok, husable⟩ := softwareChild_succeeds hcatalog hhostPart htargetPart
    exact ⟨target, child, htarget, hchild.trans hok, by rw [hmodel]; exact husable⟩
  | hdl =>
    rw [hmodel] at hchild
    obtain ⟨child, hok, husable⟩ := hardwareChild_succeeds hcatalog hhostPart htargetPart hnamed hcolons
    exact ⟨target, child, htarget, hchild.trans hok, by rw [hmodel]; exact husable⟩

def boardFile : FileNode := .file ⟨.empty, default, FileTree.fileMode⟩

def boardDirectory : FileNode := .directory FileTree.directoryMode

/-- A workspace whose project has a hardware library and a component library of one name. -/
def boardTree : FileTree where
  nodes := .ofList [
    (["w"], boardDirectory),
    (["w", "projects"], boardDirectory),
    (["w", "projects", "core"], boardDirectory),
    (["w", "projects", "core", "Project.mk"], boardFile),
    (["w", "projects", "core", "components"], boardDirectory),
    (["w", "projects", "core", "components", "devices"], boardDirectory),
    (["w", "projects", "core", "components", "devices", "specs"], boardDirectory),
    (["w", "projects", "core", "hdl"], boardDirectory),
    (["w", "projects", "core", "hdl", "devices"], boardDirectory),
    (["w", "projects", "core", "hdl", "devices", "Makefile"], boardFile),
    (["w", "projects", "core", "hdl", "platforms"], boardDirectory),
    (["w", "projects", "core", "hdl", "platforms", "alst4"], boardDirectory),
    (["w", "projects", "core", "hdl", "platforms", "alst4", "Makefile"], boardFile),
    (["w", "projects", "core", "rcc"], boardDirectory),
    (["w", "projects", "core", "rcc", "platforms"], boardDirectory),
    (["w", "projects", "core", "rcc", "platforms", "centos7"], boardDirectory),
    (["w", "projects", "core", "rcc", "platforms", "centos7", "centos7.mk"], boardFile),
    (["w", "projects", "core", "rcc", "platforms", "centos7", "centos7-check.sh"], boardFile)]
  current := ["w"]

def boardPlan : Plan where
  settings := .standard
  catalog := .v2
  inventory := ⟨[⟨"core", [⟨"devices", .devices, "hdl/devices"⟩,
      ⟨"devices", .components, "components/devices"⟩]⟩],
    [⟨"alst4", "core", .hdl .cross false, ∅⟩, ⟨"centos7", "core", .rcc .host, ∅⟩]⟩
  run := default
  directive := ((Directive.parse .reset "centos7:alst4").toOption).getD ⟨∅⟩

def boardSelection : Selection where
  hosts := [⟨"centos7", "core", .rcc .host, .ofList ["alst4"]⟩]
  targets := .ofList [("centos7", [.here ⟨"alst4", "core", .hdl .cross false, .ofList ["centos7"]⟩])]

lemma survey_boardTree : Inventory.survey boardTree "projects" = .ok boardPlan.inventory :=
  survey_eq_ok (by decide +kernel) (by decide +kernel) (by decide +kernel) (by decide +kernel) (by decide +kernel)

/-- The child builds both libraries, tests the components and writes a card. -/
theorem child_succeeds_board :
    HasFileNames boardTree ∧ Inventory.survey boardTree "projects" = .ok boardPlan.inventory ∧
    NoColons boardPlan.inventory ∧ SuitsChildren boardPlan.catalog ∧
    ∃ pipeline job child, boardPlan.topLevel = .ok pipeline ∧ job ∈ pipeline.jobs ∧
      DoesWork boardPlan job (.describe "centos7" "alst4") ∧
      boardPlan.child "centos7" "alst4" = .ok child ∧ IsUsableChild boardPlan .hdl child ∧
      child.jobs.length = 5 := by
  have hfiles : HasFileNames boardTree := by decide +kernel
  have hcolons : NoColons boardPlan.inventory := ⟨by decide, by decide, by decide⟩
  have hcatalog : SuitsChildren boardPlan.catalog := ⟨rfl, by decide, by decide, by decide⟩
  obtain ⟨pipeline, htop⟩ : ∃ pipeline, boardPlan.topLevel = .ok pipeline := by
    have hsome : boardPlan.topLevel.toOption.isSome = true := by decide +kernel
    cases htop : boardPlan.topLevel with
    | error error => simp [htop, Except.toOption] at hsome
    | ok pipeline => exact ⟨pipeline, rfl⟩
  obtain ⟨selection, jobs, hselect, hfulfills, _, _, hjobs⟩ := topLevel_jobs htop
  have hselected : boardPlan.select = .ok boardSelection := by decide +kernel
  obtain rfl : boardSelection = selection := Except.ok.inj (hselected.symm.trans hselect)
  have hpurpose : .describe "centos7" "alst4" ∈ purposes boardSelection := by decide
  obtain ⟨job, hmem, hdescribes⟩ := exists_of_forall₂ hfulfills hpurpose
  have hjob : job ∈ pipeline.jobs := by rwa [hjobs, mem_inStageOrder]
  obtain ⟨target, child, htarget, hchild, husable⟩ :=
    child_succeeds hfiles survey_boardTree hcolons hcatalog htop hjob hdescribes.work
  have hkind : childKind target = .hdl := by
    have hfound : boardPlan.inventory.platform? "alst4" = some ⟨"alst4", "core", .hdl .cross false, ∅⟩ := by
      decide
    rw [← Option.some_inj.mp (hfound.symm.trans htarget)]
    rfl
  have hlength : (boardPlan.child "centos7" "alst4").toOption.map (·.jobs.length) = some 5 := by
    decide +kernel
  rw [hkind] at husable
  refine ⟨hfiles, survey_boardTree, hcolons, hcatalog, pipeline, job, child, htop, hjob, hdescribes.work,
    hchild, husable, ?_⟩
  rw [hchild] at hlength
  simpa [Except.toOption] using hlength

end CrossBuild.Proofs
