import CrossBuild.Proofs.KeyedJobs

/-!
# Runs that have a pipeline

Once a run has selected its hosts, nothing can go wrong any more if the catalog has the stages that the
first pipeline needs: every purpose gets a job, no two jobs get the same name, as the name tells the
purpose, and the jobs that describe children are in a stage before those that start them. As each name
has a colon, none is a word of the descriptor's format.
-/

namespace CrossBuild.Proofs
open Plan

/-- A catalog with all stages that the jobs of the first pipeline need. -/
structure SuitsTopLevel (c : Catalog) : Prop where
  valid : c.validate = .ok ()
  parts : ∀ stage ∈ c.host, IsPart stage.name
  roles : ∀ role ∈ stepRoles ++ [.generateChildren, .triggerChildren], ∃ stage ∈ c.host, stage.role = role
  order : c.host.findIdx (·.role == .generateChildren) < c.host.findIdx (·.role == .triggerChildren)

lemma SuitsTopLevel.stageFor? {c : Catalog} (h : SuitsTopLevel c) {role : StageRole}
    (hrole : role ∈ stepRoles ++ [.generateChildren, .triggerChildren]) :
    ∃ stage, c.stageFor? .host role = some stage :=
  stageFor?_succeeds_iff.mpr (h.roles role hrole)

/-! ### Jobs for all purposes -/

lemma topLevelJobs_succeeds {p : Plan} (hcatalog : SuitsTopLevel p.catalog) (selection : Selection)
    (generateStage triggerStage : String) (hosts : List Platform) :
    ∃ jobs, p.topLevelJobs selection generateStage triggerStage hosts = .ok jobs := by
  have hhost : ∀ host, ∃ jobs, p.hostJobs host = .ok jobs := by
    intro host
    simp only [hostJobs, stepJobs_eq_mapM, mapM_succeeds_iff]
    intro step hstep
    have hrole : step.1 ∈ stepRoles := List.mem_map_of_mem (f := (·.1)) hstep
    obtain ⟨stage, hstage⟩ := hcatalog.stageFor? (List.mem_append_left _ hrole)
    exact ⟨_, bind_eq_ok.mpr ⟨stage, stage_eq_ok.mpr hstage, rfl⟩⟩
  induction hosts with
  | nil => exact ⟨[], rfl⟩
  | cons host hosts ih =>
    obtain ⟨own, hown⟩ := hhost host
    obtain ⟨rest, hrest⟩ := ih
    simp only [topLevelJobs, bind_eq_ok, pure_eq_ok]
    exact ⟨_, own, hown, rest, hrest, rfl⟩

/-! ### Purposes that differ in role or parts -/

/-- What the name of a job for some purpose is made from. -/
def Purpose.key (purpose : Purpose) : StageRole × List String := (purpose.role, purpose.parts)

lemma Fulfills.hasKey {p : Plan} {purpose : Purpose} {job : Job} (h : Fulfills p purpose job) :
    HasKey p.catalog .host purpose.key job :=
  ⟨h.stage, h.name⟩

lemma mem_targetKeys {host : String} {target : Target} {key : StageRole × List String}
    (h : key ∈ (targetPurposes host target).map Purpose.key) :
    (key.1 = .generateChildren ∨ key.1 = .triggerChildren) ∧ key.2 = [host, target.name] := by
  cases target with
  | here platform =>
    simp only [targetPurposes, List.map_cons, List.map_nil, List.mem_cons, List.not_mem_nil,
      or_false] at h
    rcases h with rfl | rfl
    · exact ⟨.inl rfl, rfl⟩
    · exact ⟨.inr rfl, rfl⟩
  | remote name project branch =>
    obtain rfl := List.mem_singleton.mp h
    exact ⟨.inr rfl, rfl⟩

lemma mem_hostKeys {selection : Selection} {host : String} {key : StageRole × List String}
    (h : key ∈ (hostPurposes selection host).map Purpose.key) :
    key.2 = [host] ∨ ∃ target ∈ selection.targetsOf host, key.2 = [host, target.name] := by
  rw [hostPurposes, List.map_append, List.mem_append] at h
  rcases h with h | h
  · simp only [List.map_map, List.mem_map] at h
    obtain ⟨role, _, rfl⟩ := h
    exact .inl rfl
  · rw [List.map_flatMap, List.mem_flatMap] at h
    obtain ⟨target, htarget, hkey⟩ := h
    exact .inr ⟨target, htarget, (mem_targetKeys hkey).2⟩

lemma nodup_hostKeys {selection : Selection} {host : String}
    (h : ((selection.targetsOf host).map Target.name).Nodup) :
    ((hostPurposes selection host).map Purpose.key).Nodup := by
  rw [hostPurposes, List.map_append, List.map_map, List.map_flatMap, List.nodup_append, List.nodup_flatMap]
  refine ⟨?_, ⟨fun target _ => ?_, ?_⟩, ?_⟩
  -- the steps differ by role, what is for a target too, and targets by name
  · have hroles : stepRoles.Nodup := by decide
    refine hroles.map ?_
    intro role other heq
    exact congrArg Prod.fst heq
  · cases target <;> simp [targetPurposes, Purpose.key, Purpose.role]
  · refine (List.pairwise_map.mp h).imp ?_
    intro target other hne key hkey hother
    have hsame : [host, target.name] = [host, other.name] :=
      (mem_targetKeys hkey).2.symm.trans (mem_targetKeys hother).2
    exact hne (by simpa using hsame)
  -- a step has one part only
  · rintro key hstep _ htarget rfl
    obtain ⟨role, _, rfl⟩ := List.mem_map.mp hstep
    obtain ⟨target, _, hkey⟩ := List.mem_flatMap.mp htarget
    cases (mem_targetKeys hkey).2

lemma nodup_purposeKeys {selection : Selection} (hhosts : (selection.hosts.map (·.name)).Nodup)
    (htargets : ∀ host, ((selection.targetsOf host).map Target.name).Nodup) :
    ((purposes selection).map Purpose.key).Nodup := by
  rw [purposes, List.map_flatMap, List.nodup_flatMap]
  refine ⟨fun host _ => nodup_hostKeys (htargets host.name), (List.pairwise_map.mp hhosts).imp ?_⟩
  intro host other hne key hkey hother
  -- the first part is the host
  have hhead : ∀ {name : String}, key ∈ (hostPurposes selection name).map Purpose.key →
      key.2.head? = some name := by
    intro name hmem
    rcases mem_hostKeys hmem with hparts | ⟨_, _, hparts⟩
    · rw [hparts, List.head?_cons]
    · rw [hparts, List.head?_cons]
  exact hne (Option.some_inj.mp ((hhead hkey).symm.trans (hhead hother)))

/-! ### Names for all purposes -/

section Parts

variable {p : Plan} (hunique : (p.inventory.platforms.map (·.name)).Nodup)
  {selection : Selection} (hselect : p.select = .ok selection)

include hunique hselect

lemma nodup_hostNames (hdistinct : selection.hosts.Nodup) : (selection.hosts.map (·.name)).Nodup := by
  -- hosts of one name come from one platform of the tree, and links are a matter of the directive
  refine hdistinct.map_on fun first hfirst second hsecond hname => ?_
  rw [(select_eq_ok hselect).1] at hfirst hsecond
  obtain ⟨original, horiginal, rfl⟩ := (isRelinked_of_mem_hosts hfirst).1.eq_withLinks
  obtain ⟨other, hother, rfl⟩ := (isRelinked_of_mem_hosts hsecond).1.eq_withLinks
  rw [List.inj_on_of_nodup_map hunique horiginal hother hname]

variable (hplatforms : ∀ platform ∈ p.inventory.platforms, IsPart platform.name)
  {rule : ColonlessRule} {text : String} (hdirective : Directive.parse rule text = .ok p.directive)

include hplatforms hdirective

lemma isPart_of_purpose {purpose : Purpose} (hpurpose : purpose ∈ purposes selection) :
    ∀ part ∈ purpose.parts, IsPart part := by
  obtain ⟨host, hhost, hmem⟩ := List.mem_flatMap.mp hpurpose
  rw [(select_eq_ok hselect).1] at hhost
  obtain ⟨links, horiginal⟩ := (isRelinked_of_mem_hosts hhost).1.mem
  have hhostPart : IsPart host.name := hplatforms { host with linked := links } horiginal
  have hwanted : host.name ∈ wantedHosts p := by
    rw [← names_hosts hunique]
    exact List.mem_map_of_mem hhost
  have hparts : purpose.parts = [host.name] ∨
      ∃ target ∈ selection.targetsOf host.name, purpose.parts = [host.name, target.name] :=
    mem_hostKeys (List.mem_map_of_mem hmem)
  rcases hparts with hparts | ⟨target, htarget, hparts⟩
  · simpa [hparts] using hhostPart
  · have hnamed := ((mem_targetsOf hunique hselect hwanted target).mp htarget).1
    have htargetPart : IsPart target.name := isPart_of_parse hdirective hnamed
    simpa [hparts] using And.intro hhostPart htargetPart

end Parts

/-! ### Placing the jobs -/

/-- What a job waits for is described by another job in an earlier stage. -/
lemma prerequisite_of_fulfills {p : Plan} (hcatalog : SuitsTopLevel p.catalog) {selection : Selection}
    {jobs : List Job} (h : List.Forall₂ (Fulfills p) (purposes selection) jobs) :
    ∀ job ∈ jobs, ∀ target, Pipeline.prerequisite? job = some target →
      ∃ earlier ∈ jobs, earlier.name = target ∧
        (p.catalog.names .host).idxOf earlier.stage < (p.catalog.names .host).idxOf job.stage := by
  intro job hjob target htarget
  have hdistinct : (p.catalog.names .host).Nodup := (validate_eq_ok.mp hcatalog.valid .host).2
  obtain ⟨purpose, hpurpose, hfulfills⟩ := exists_of_forall₂ h.flip hjob
  obtain ⟨output, strategy, htrigger⟩ :
      ∃ output strategy, job.trigger = some (.child output target strategy) := by
    unfold Pipeline.prerequisite? at htarget
    split at htarget
    · rename_i output found strategy htrigger
      cases htarget
      exact ⟨output, strategy, htrigger⟩
    · cases htarget
  rcases Fulfills.trigger hfulfills htrigger with
    ⟨host, platform, stage, rfl, hstage, hchild⟩ | ⟨_, _, _, _, _, hchild⟩
  · cases hchild
    obtain ⟨earlier, hearlier, hdescribes⟩ := exists_of_forall₂ h (describe_mem_purposes hpurpose)
    obtain rfl : stage = earlier.stage := Option.some_inj.mp (hstage.symm.trans hdescribes.stage)
    refine ⟨earlier, hearlier, hdescribes.name, ?_⟩
    rw [idxOf_stageFor? hdistinct hdescribes.stage, idxOf_stageFor? hdistinct hfulfills.stage]
    exact hcatalog.order
  · cases hchild

/-- A job for each purpose, where the names of the purposes are made of proper parts. -/
structure Covers (p : Plan) (selection : Selection) (jobs : List Job) : Prop where
  fulfills : List.Forall₂ (Fulfills p) (purposes selection) jobs
  keys : ((purposes selection).map Purpose.key).Nodup
  parts : ∀ purpose ∈ purposes selection, ∀ part ∈ purpose.parts, IsPart part

section Covered

variable {p : Plan} {selection : Selection} {jobs : List Job} (h : Covers p selection jobs)
  (hcatalog : SuitsTopLevel p.catalog)

include h hcatalog

omit hcatalog in
lemma Covers.hasKeys : List.Forall₂ (HasKey p.catalog .host) ((purposes selection).map Purpose.key) jobs :=
  List.forall₂_map_left_iff.mpr (h.fulfills.imp fun _ _ hfulfills => hfulfills.hasKey)

lemma Covers.nodup_names : (jobs.map (·.name)).Nodup := by
  have hdistinct : (p.catalog.names .host).Nodup := (validate_eq_ok.mp hcatalog.valid .host).2
  refine nodup_names_of_keys hdistinct hcatalog.parts h.hasKeys h.keys ?_
  intro key hkey
  obtain ⟨purpose, hpurpose, rfl⟩ := List.mem_map.mp hkey
  exact h.parts purpose hpurpose

lemma Covers.placeable : Placeable (p.catalog.names .host) jobs := by
  refine ⟨fun job hjob => ?_, h.nodup_names hcatalog, prerequisite_of_fulfills hcatalog h.fulfills⟩
  obtain ⟨purpose, _, hfulfills⟩ := exists_of_forall₂ h.fulfills.flip hjob
  exact mem_names_of_stageFor? hfulfills.stage

lemma Covers.notReserved {job : Job} (hjob : job ∈ jobs) : job.name ∉ Descriptor.reservedKeys := by
  obtain ⟨purpose, hpurpose, hfulfills⟩ := exists_of_forall₂ h.fulfills.flip hjob
  have hstages : ∀ stage ∈ p.catalog.stages .host, IsPart stage.name := hcatalog.parts
  refine hfulfills.hasKey.notReserved hstages (h.parts purpose hpurpose) ?_
  cases purpose <;> exact List.cons_ne_nil _ _

end Covered

/-- A run that selects different hosts has a pipeline, and the pipeline has a descriptor, if platforms
have different and proper names, the directive comes from a text and the catalog suits. -/
theorem topLevel_succeeds {p : Plan} (hunique : (p.inventory.platforms.map (·.name)).Nodup)
    (hplatforms : ∀ platform ∈ p.inventory.platforms, IsPart platform.name)
    (hdirective : ∃ rule text, Directive.parse rule text = .ok p.directive)
    (hcatalog : SuitsTopLevel p.catalog) {selection : Selection} (hselect : p.select = .ok selection)
    (hdistinct : selection.hosts.Nodup) :
    ∃ pipeline value, p.topLevel = .ok pipeline ∧ Descriptor.ofPipeline pipeline = .ok value := by
  obtain ⟨rule, text, hparse⟩ := hdirective
  obtain ⟨generateStage, hgenerate⟩ : ∃ stage, p.catalog.stageFor? .host .generateChildren = some stage :=
    hcatalog.stageFor? (by simp)
  obtain ⟨triggerStage, htrigger⟩ : ∃ stage, p.catalog.stageFor? .host .triggerChildren = some stage :=
    hcatalog.stageFor? (by simp)
  obtain ⟨jobs, hjobs⟩ := topLevelJobs_succeeds hcatalog selection generateStage triggerStage selection.hosts
  have hhosts := nodup_hostNames hunique hselect hdistinct
  have hwanted : (wantedHosts p).Nodup := by
    rw [← names_hosts hunique, ← (select_eq_ok hselect).1]
    exact hhosts
  have hcovers : Covers p selection jobs := by
    refine ⟨topLevelJobs_fulfill hgenerate htrigger hjobs, ?_, ?_⟩
    · exact nodup_purposeKeys hhosts (nodup_targetsOf hunique hselect hwanted)
    · intro purpose hpurpose
      exact isPart_of_purpose hunique hselect hplatforms hparse hpurpose
  obtain ⟨pipeline, hpipeline⟩ := pipelineOf_succeeds_iff.mpr (hcovers.placeable hcatalog)
  have htop : p.topLevel = .ok pipeline := by
    simp only [topLevel, bind_eq_ok, stage_eq_ok]
    exact ⟨selection, hselect, generateStage, hgenerate, triggerStage, htrigger, jobs, hjobs, hpipeline⟩
  have hperm : pipeline.jobs.Perm jobs := by
    rw [(pipelineOf_eq_ok hpipeline).2.2]
    exact inStageOrder_perm _ _
  obtain ⟨value, hvalue⟩ := ofPipeline_succeeds_iff.mpr
    ⟨fun job hjob => hcovers.notReserved hcatalog (hperm.mem_iff.mp hjob),
      (hperm.map _).nodup_iff.mpr (hcovers.nodup_names hcatalog)⟩
  exact ⟨pipeline, value, htop, hvalue⟩

theorem topLevel_succeeds_radio :
    (radioPlan.inventory.platforms.map (·.name)).Nodup ∧
    (∀ platform ∈ radioPlan.inventory.platforms, IsPart platform.name) ∧
    Directive.parse .reset radioText = .ok radioPlan.directive ∧
    SuitsTopLevel radioPlan.catalog ∧
    radioPlan.select = .ok radioSelection ∧ radioSelection.hosts.Nodup ∧
    ∃ pipeline value, radioPlan.topLevel = .ok pipeline ∧ Descriptor.ofPipeline pipeline = .ok value := by
  have hunique : (radioPlan.inventory.platforms.map (·.name)).Nodup := by decide
  have hplatforms : ∀ platform ∈ radioPlan.inventory.platforms, IsPart platform.name := by decide
  have hcatalog : SuitsTopLevel radioPlan.catalog := ⟨rfl, by decide, by decide, by decide⟩
  have hdistinct : radioSelection.hosts.Nodup := by decide
  refine ⟨hunique, hplatforms, parse_radioText, hcatalog, select_radioPlan, hdistinct, ?_⟩
  exact topLevel_succeeds hunique hplatforms ⟨.reset, radioText, parse_radioText⟩ hcatalog
    select_radioPlan hdistinct

end CrossBuild.Proofs
