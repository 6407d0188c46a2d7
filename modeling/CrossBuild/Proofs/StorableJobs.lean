import CrossBuild.Proofs.HardwareTasks
import CrossBuild.Proofs.KeyTexts
import CrossBuild.Proofs.RenderedCommands
import CrossBuild.Proofs.UploadLine

/-!
# Jobs whose bundles can be stored

A job is named after its stage and names of a tree, and ends with an upload under that stage and name. What
a tree gives to the name are names of files, so if the stage can be part of a key, the name can as well.
But a stage is whatever the settings call it: the check of a catalog accepts a name with a slash, and the
bundles of all jobs in such a stage are refused once the jobs are done.
-/

namespace CrossBuild.Proofs
open CommandLine Plan Shell

/-! ### Names without slashes -/

lemma mem_join {c : Char} {separator : String} {parts : List String} (h : c ∈ (Text.join separator parts).toList) :
    c ∈ separator.toList ∨ ∃ part ∈ parts, c ∈ part.toList := by
  induction parts with
  | nil => simp [Text.join] at h
  | cons part parts ih =>
    cases parts with
    | nil => exact .inr ⟨part, by simp, h⟩
    | cons next parts =>
      simp only [Text.join, String.toList_append, List.mem_append] at h
      rcases h with (h | h) | h
      · exact .inr ⟨part, by simp, h⟩
      · exact .inl h
      · rcases ih h with hseparator | ⟨other, hother, hmem⟩
        · exact .inl hseparator
        · exact .inr ⟨other, List.mem_cons_of_mem _ hother, hmem⟩

/-- If the stage can be the name of a file then so can the name of the job. -/
lemma isFileName_jobName {stage : String} (hstage : IsFileName stage) {parts : List String}
    (hparts : ∀ part ∈ parts, '/' ∉ part.toList) : IsFileName (jobName (stage :: parts)) := by
  obtain ⟨rest, hrest, _⟩ := toList_jobName hstage.nonempty parts
  have hname : jobName (stage :: parts) = stage ++ String.ofList rest := by
    apply String.toList_inj.mp
    rw [hrest, String.toList_append, String.toList_ofList]
  have hslashless : '/' ∉ (jobName (stage :: parts)).toList := by
    intro hslash
    rcases mem_join hslash with hcolon | ⟨part, hpart, hmem⟩
    · exact absurd hcolon (by decide)
    · rcases List.mem_cons.mp (List.mem_filter.mp hpart).1 with rfl | hpart
      · exact hstage.slashless hmem
      · exact hparts part hpart hmem
  rw [hname]
  refine hstage.append fun hslash => hslashless ?_
  rw [hrest]
  exact List.mem_append_right _ (by simpa using hslash)

section Tree

variable {p : Plan} (hnames : IsNamedByFiles p.inventory)

include hnames

lemma slashless_platform {name : String} {platform : Platform} (h : p.inventory.platform? name = some platform) :
    '/' ∉ name.toList := by
  have hname : platform.name = name := by simpa using List.find?_some h
  exact hname ▸ (hnames.platforms platform (List.mem_of_find?_eq_some h)).slashless

lemma slashless_host {host : Platform} (h : host ∈ p.hosts) : '/' ∉ host.name.toList := by
  obtain ⟨links, hmem⟩ := (isRelinked_of_mem_hosts h).1.mem
  exact (hnames.platforms _ hmem).slashless

lemma slashless_library {project : Project} {library : Library}
    (h : (project, library) ∈ librariesOf p.inventory) :
    '/' ∉ project.name.toList ∧ '/' ∉ library.label.toList := by
  obtain ⟨owner, howner, hpair⟩ := List.mem_flatMap.mp h
  obtain ⟨_, hlibrary, heq⟩ := List.mem_map.mp hpair
  cases heq
  have hname := (hnames.libraries project howner library hlibrary).slashless
  refine ⟨(hnames.projects project howner).slashless, ?_⟩
  unfold Library.label
  split
  · rw [String.toList_append, List.mem_append, not_or]
    exact ⟨by decide, hname⟩
  · exact hname

lemma slashless_task {host : String} {target : Platform} (hhost : '/' ∉ host.toList)
    (htarget : '/' ∉ target.name.toList) {task : HardwareTask} (h : task ∈ hardwareTasks p target) :
    ∀ part ∈ task.parts host target, '/' ∉ part.toList := by
  rcases List.mem_append.mp h with h | h
  · obtain ⟨⟨project, library⟩, howned, htask⟩ := List.mem_flatMap.mp h
    obtain ⟨hproject, hlabel⟩ := slashless_library hnames howned
    rw [(parts_of_libraryTasks htask).1]
    simp [hproject, hlabel, hhost, htarget]
  · unfold cardTasks at h
    split at h
    · cases h
    · obtain ⟨software, hsoftware, rfl⟩ := List.mem_map.mp h
      obtain ⟨platform, hplatform, _⟩ := (Option.any_eq_true _ _).mp (List.mem_filter.mp hsoftware).2
      simp [HardwareTask.parts, slashless_platform hnames hplatform, hhost, htarget]

end Tree

/-! ### Names of generated jobs -/

/-- A child is asked for with a host and a platform of the tree, and its jobs make a pipeline. -/
lemma child_cases {p : Plan} {host platform : String} {pipeline : Pipeline} (h : p.child host platform = .ok pipeline) :
    (∃ found, p.inventory.platform? host = some found) ∧ ∃ target, p.inventory.platform? platform = some target ∧
      (p.softwareChild host (target.withLinks p.directive p.inventory.platformNames) = .ok pipeline ∨
        p.hardwareChild host (target.withLinks p.directive p.inventory.platformNames) = .ok pipeline) := by
  by_cases hhost : ∃ found, p.inventory.platform? host = some found ∧ found.isHost = true
  · obtain ⟨found, hfound, hisHost⟩ := hhost
    refine ⟨⟨found, hfound⟩, ?_⟩
    cases htarget : p.inventory.platform? platform with
    | none =>
      have hnone : (p.inventory.platform? host).filter (·.isHost) = some found := by
        rw [hfound, Option.filter_some, if_pos hisHost]
      rw [Plan.child, hnone, htarget] at h
      cases h
    | some target =>
      refine ⟨target, rfl, ?_⟩
      rw [child_eq hfound hisHost htarget] at h
      split at h
      · exact .inl h
      · exact .inr h
  · rw [child_of_not_host hhost] at h
    cases h

/-- A staged job is named after its stage and parts that have no slash. -/
lemma exists_slashless_parts {p : Plan} (hnames : IsNamedByFiles p.inventory) {pipeline : Pipeline}
    (h : Generates p pipeline) {job : Job} (hjob : job ∈ pipeline.jobs) (hstaged : IsStaged job) :
    ∃ parts, job.name = jobName (job.stage :: parts) ∧ ∀ part ∈ parts, '/' ∉ part.toList := by
  rcases h with h | ⟨host, platform, h⟩
  · obtain ⟨host, hhost, _, hname⟩ := (topLevel_eq_ok h).2.2 job hjob hstaged
    exact ⟨[host.name], hname, by simpa using slashless_host hnames hhost⟩
  · obtain ⟨⟨found, hfound⟩, target, htarget, hchild⟩ := child_cases h
    have hhost := slashless_platform hnames hfound
    have hplatform : '/' ∉ target.name.toList :=
      (hnames.platforms target (List.mem_of_find?_eq_some htarget)).slashless
    rcases hchild with hchild | hchild
    · simp only [softwareChild, bind_eq_ok] at hchild
      obtain ⟨jobs, hjobs, hpipeline⟩ := hchild
      rw [(pipelineOf_eq_ok hpipeline).2.2, mem_inStageOrder] at hjob
      have hname := (stepJobs_stagedFor (by simp) hjobs job hjob).2
      exact ⟨[host, target.name], hname, by simpa using And.intro hhost hplatform⟩
    · obtain ⟨_, _, hperm, hcarries⟩ := hardwareChild_eq_ok hchild
      obtain ⟨task, htask, hcarry⟩ := exists_of_forall₂ hcarries.flip hjob
      refine ⟨task.parts host target, ?_, slashless_task hnames hhost hplatform (hperm.mem_iff.mp htask)⟩
      rw [hcarry.eq_jobIn]
      rfl

/-! ### Stages of built-in catalogs -/

lemma stage_mem_names {p : Plan} {pipeline : Pipeline} (h : Generates p pipeline) {job : Job}
    (hjob : job ∈ pipeline.jobs) : job.stage ∈ p.catalog.names pipeline.kind := by
  have hplaced : ∀ {kind : PipelineKind} {jobs : List Job}, p.pipelineOf kind jobs = .ok pipeline →
      job.stage ∈ p.catalog.names pipeline.kind := by
    intro kind jobs hpipeline
    obtain ⟨hkind, _, hlist⟩ := pipelineOf_eq_ok hpipeline
    rw [hlist, mem_inStageOrder] at hjob
    rw [hkind]
    exact (pipelineOf_succeeds_iff.mp ⟨pipeline, hpipeline⟩).stage job hjob
  rcases h with h | ⟨host, platform, h⟩
  · simp only [topLevel, bind_eq_ok] at h
    obtain ⟨_, _, _, _, _, _, _, _, hpipeline⟩ := h
    exact hplaced hpipeline
  · obtain ⟨_, target, _, h | h⟩ := child_cases h
    · simp only [softwareChild, bind_eq_ok] at h
      obtain ⟨_, _, hpipeline⟩ := h
      exact hplaced hpipeline
    · simp only [hardwareChild, bind_eq_ok] at h
      obtain ⟨_, _, _, _, hpipeline⟩ := h
      exact hplaced hpipeline

lemma isFileName_builtin {version : String} {c : Catalog} (h : Catalog.builtin? version = some c)
    (kind : PipelineKind) : ∀ name ∈ c.names kind, IsFileName name := by
  have hall : ∀ c ∈ [Catalog.v1, Catalog.v2], ∀ name ∈ c.names kind, IsFileName name := by
    cases kind <;> decide
  exact hall c (List.mem_of_find?_eq_some h)

lemma builtin_of_catalog {s : Settings} {c : Catalog} (hstages : s.stages = none) (h : s.catalog = .ok c) :
    ∃ version, Catalog.builtin? version = some c := by
  simp only [Settings.catalog, bind_eq_ok] at h
  obtain ⟨chosen, hchosen, h⟩ := h
  unfold Settings.chosenCatalog at hchosen
  rw [hstages] at hchosen
  split at h
  · rw [pure_eq_ok] at h
    cases hbuiltin : Catalog.builtin? s.stageVersion with
    | none => simp [hbuiltin] at hchosen
    | some found =>
      simp only [hbuiltin, Except.ok.injEq] at hchosen
      exact ⟨s.stageVersion, by rw [hbuiltin, hchosen, h]⟩
  · cases h

/-! ### Uploads -/

section Request

variable {files : FileTree} {store : StoreOptions} {options : UploadOptions}

lemma uploadRequest_eq_ok (hid : IsFileName store.pipelineId) (hstage : IsFileName options.stage)
    (hjob : IsFileName options.job) :
    ∃ request, store.uploadRequest files options = .ok request ∧
      request.key = ⟨store.pipelineId, options.stage, options.job, options.failed⟩ := by
  have hkey : BundleKey.ofParts store.pipelineId options.stage options.job =
      .ok ⟨store.pipelineId, options.stage, options.job, false⟩ :=
    ofParts_eq_ok.mpr ⟨⟨hid, hstage, hjob⟩, rfl⟩
  unfold StoreOptions.uploadRequest StoreOptions.bundleKey
  rw [hkey]
  cases hfailed : options.failed with
  | true => exact ⟨_, rfl, rfl⟩
  | false => exact ⟨_, rfl, rfl⟩

lemma uploadRequest_eq_error (hid : IsFileName store.pipelineId) {fault : KeyFault}
    (hfault : BundleKey.fault? options.stage = some fault) :
    store.uploadRequest files options = .error (.key options.stage fault) := by
  have hkey : BundleKey.ofParts store.pipelineId options.stage options.job = .error (options.stage, fault) := by
    simp [BundleKey.ofParts, fault?_eq_none.mpr hid, hfault]
  unfold StoreOptions.uploadRequest StoreOptions.bundleKey
  rw [hkey]
  rfl

end Request

/-- The script ends by storing the bundle, and what follows it stores the bundle of a failed job. Both lines
name the stage and the job as they are. -/
structure HasUploadLines (s : Settings) (job : Job) : Prop where
  script : ∃ line, job.script.getLast? = some line ∧
    SplitsInto line (s.uploadCommand job.stage job.name false).argv
  afterScript : ∃ line words, job.afterScript = [line] ∧
    SpellOut words (s.uploadCommand job.stage job.name true).argv ∧
    tokensOf line = some (openingTokens ++ words ++ closingTokens)

lemma StagedFor.hasUploadLines {p : Plan} {kind : PipelineKind} {host : String} {platforms : List String} {job : Job}
    (h : StagedFor p kind host platforms job) : HasUploadLines p.settings job := by
  obtain ⟨stage, name, build, rfl⟩ := h.eq_stagedJob
  constructor
  · exact ⟨_, rfl, renders_toShell (p.settings.uploadCommand stage name false)⟩
  · obtain ⟨words, hwords, htokens⟩ := tokensOf_guarded (p.settings.uploadCommand stage name true).argv
    exact ⟨_, words, rfl, hwords, htokens⟩

/-- What becomes of the uploads of a staged job, in a pipeline whose id can be part of a key. Its lines are
read as uploads under its stage and name, if these do not look like options. Such an upload is accepted
under the key of the job just if the stage can be part of a key, which holds for all stages of built-in
catalogs; otherwise it is refused for the stage. -/
theorem staged_upload_request {p : Plan} {files : FileTree} {root : String} (hfiles : HasFileNames files)
    (hsurvey : Inventory.survey files root = .ok p.inventory) {pipeline : Pipeline} (h : Generates p pipeline)
    {job : Job} (hjob : job ∈ pipeline.jobs) (hstaged : IsStaged job) :
    HasUploadLines p.settings job ∧
    (∀ vars id failed action, NoEmptyPath vars → Parameter.fallback? vars .pipelineId = some id →
      ((Invocation.ofWords vars (p.settings.uploadCommand job.stage job.name failed).argv.tail).toOption.map
          (·.action) = some action ↔
        CanNameSource p.settings ∧ (IsPlainWord job.stage ∧ IsPlainWord job.name) ∧
          uploadAction vars id job.stage job.name failed = action)) ∧
    (∀ (now : FileTree) (store : StoreOptions) (options : UploadOptions),
      BundleKey.fault? store.pipelineId = none → options.stage = job.stage → options.job = job.name →
        (BundleKey.fault? job.stage = none → ∃ request, store.uploadRequest now options = .ok request ∧
          request.key = ⟨store.pipelineId, job.stage, job.name, options.failed⟩) ∧
        ∀ fault, BundleKey.fault? job.stage = some fault →
          store.uploadRequest now options = .error (.key job.stage fault)) ∧
    (p.settings.stages = none → p.settings.catalog = .ok p.catalog → BundleKey.fault? job.stage = none) := by
  have hnames := survey_isNamedByFiles hfiles hsurvey
  obtain ⟨parts, hname, hparts⟩ := exists_slashless_parts hnames h hjob hstaged
  obtain ⟨host, platforms, hfor⟩ := exists_stagedFor h hjob hstaged
  refine ⟨hfor.hasUploadLines, fun vars id failed action hpaths hid => uploadLine_asks hpaths hid action, ?_, ?_⟩
  · rintro now store ⟨stage, name, failed, tag, marker, path⟩ hid rfl rfl
    rw [fault?_eq_none] at hid
    refine ⟨fun hfault => ?_, fun fault hfault => uploadRequest_eq_error hid hfault⟩
    have hstage := fault?_eq_none.mp hfault
    exact uploadRequest_eq_ok hid hstage (hname ▸ isFileName_jobName hstage hparts)
  · intro hbuiltin hcatalog
    obtain ⟨version, hversion⟩ := builtin_of_catalog hbuiltin hcatalog
    exact fault?_eq_none.mpr (isFileName_builtin hversion _ _ (stage_mem_names h hjob))

/-- A usable catalog with a stage whose name has a slash. -/
def slashedCatalog : Catalog :=
  { Catalog.v2 with
    version := "own"
    host := [⟨"prereqs", .prereqs⟩, ⟨"build/host", .build⟩, ⟨"test", .test⟩,
      ⟨"generate-children", .generateChildren⟩, ⟨"trigger-children", .triggerChildren⟩] }

def slashedPlan : Plan :=
  { boardPlan with settings := { Settings.standard with stages := some slashedCatalog }, catalog := slashedCatalog }

/-- One job of the pipeline stores what it made, and the next one builds but cannot store, whether it failed
or not. -/
theorem staged_upload_request_slashed :
    HasFileNames boardTree ∧ Inventory.survey boardTree "projects" = .ok slashedPlan.inventory ∧
    slashedPlan.settings.catalog = .ok slashedPlan.catalog ∧
    ∃ pipeline stored refused, slashedPlan.topLevel = .ok pipeline ∧
      stored ∈ pipeline.jobs ∧ refused ∈ pipeline.jobs ∧ IsStaged stored ∧ IsStaged refused ∧
      ∀ failed,
        (∃ request, StoreOptions.uploadRequest boardTree ⟨some "store", none, "7", "."⟩
          (uploadOptions stored.stage stored.name failed) = .ok request) ∧
        StoreOptions.uploadRequest boardTree ⟨some "store", none, "7", "."⟩
          (uploadOptions refused.stage refused.name failed) = .error (.key "build/host" .slash) := by
  have hfiles : HasFileNames boardTree := by decide +kernel
  have hsurvey : Inventory.survey boardTree "projects" = .ok slashedPlan.inventory := survey_boardTree
  obtain ⟨pipeline, htop⟩ : ∃ pipeline, slashedPlan.topLevel = .ok pipeline :=
    succeeds_of_isSome (by decide +kernel)
  obtain ⟨selection, jobs, hselect, hfulfills, _, _, hjobs⟩ := topLevel_jobs htop
  have hselected : slashedPlan.select = .ok boardSelection := by decide +kernel
  obtain rfl : boardSelection = selection := Except.ok.inj (hselected.symm.trans hselect)
  -- the jobs of two steps for the host
  have hstep : ∀ role ∈ stepRoles, ∃ job ∈ pipeline.jobs, IsStaged job ∧
      slashedCatalog.stageFor? .host role = some job.stage := by
    intro role hrole
    have hpurpose : .step role "centos7" ∈ purposes boardSelection :=
      List.mem_flatMap.mpr ⟨_, List.mem_singleton_self _, List.mem_append_left _ (List.mem_map_of_mem hrole)⟩
    obtain ⟨job, hmem, hjob⟩ := exists_of_forall₂ hfulfills hpurpose
    exact ⟨job, by rwa [hjobs, mem_inStageOrder], hjob.work.isStaged, hjob.stage⟩
  obtain ⟨stored, hstored, hstaged, hstage⟩ := hstep .prereqs (by decide)
  obtain ⟨refused, hrefused, hstaged', hstage'⟩ := hstep .build (by decide)
  have hstage : "prereqs" = stored.stage := Option.some.inj hstage
  have hstage' : "build/host" = refused.stage := Option.some.inj hstage'
  obtain ⟨_, _, haccepts, _⟩ := staged_upload_request hfiles hsurvey (.inl htop) hstored hstaged
  obtain ⟨_, _, hrefuses, _⟩ := staged_upload_request hfiles hsurvey (.inl htop) hrefused hstaged'
  refine ⟨hfiles, hsurvey, rfl, pipeline, stored, refused, htop, hstored, hrefused, hstaged, hstaged', fun failed => ?_⟩
  constructor
  · obtain ⟨request, hrequest, _⟩ := (haccepts boardTree ⟨some "store", none, "7", "."⟩
      (uploadOptions stored.stage stored.name failed) (by decide) rfl rfl).1 (by rw [← hstage]; decide)
    exact ⟨request, hrequest⟩
  · have herror := (hrefuses boardTree ⟨some "store", none, "7", "."⟩
      (uploadOptions refused.stage refused.name failed) (by decide) rfl rfl).2 .slash (by rw [← hstage']; decide)
    rw [herror, ← hstage']

end CrossBuild.Proofs
