import CrossBuild.Proofs.PipelineRuns
import CrossBuild.Proofs.TopLevelSucceeds

/-!
# Hosts that are listed twice

Hosts that a directive names come from the tree, where each has a place of its own. Default hosts come
from a list that is taken as it is, so a host that is listed twice there is selected twice, and each of
its targets goes to it twice. A first pipeline is never made from such a selection: the steps of a
repeated host have the same names, and the second job of a name is turned down.
-/

namespace CrossBuild.Proofs
open Plan

/-! ### Hosts and targets -/

lemma nodup_directHosts {p : Plan} (hunique : (p.inventory.platforms.map (·.name)).Nodup) :
    (directHosts p).Nodup :=
  hunique.sublist (List.filter_sublist.map _)

lemma nodup_wantedHosts_iff {p : Plan} (hunique : (p.inventory.platforms.map (·.name)).Nodup) :
    (wantedHosts p).Nodup ↔ directHosts p ≠ [] ∨
      (p.defaultHostNames.filter fun name => IsHostName p.inventory name).Nodup := by
  unfold wantedHosts
  by_cases hnone : directHosts p = []
  · simp [hnone]
  · simp [hnone, nodup_directHosts hunique]

section Selected

variable {p : Plan} (hunique : (p.inventory.platforms.map (·.name)).Nodup) {selection : Selection}
  (hselect : p.select = .ok selection)

include hunique hselect

lemma names_selected : selection.hosts.map (·.name) = wantedHosts p := by
  rw [(select_eq_ok hselect).1, names_hosts hunique]

lemma nodup_hosts_iff : selection.hosts.Nodup ↔ (wantedHosts p).Nodup := by
  rw [← names_selected hunique hselect]
  exact ⟨nodup_hostNames hunique hselect, List.Nodup.of_map _⟩

omit hunique hselect in
lemma count_replicated (targets : List Target) (n : Nat) (name : String) :
    ((targets.flatMap (List.replicate n)).map (·.name)).count name = n * (targets.map (·.name)).count name := by
  induction targets with
  | nil => simp
  | cons target targets ih =>
    rw [List.flatMap_cons, List.map_append, List.count_append, ih, List.map_replicate, List.count_replicate,
      List.map_cons, List.count_cons, Nat.mul_add]
    split
    · omega
    · omega

/-- A host has each of its targets as often as it is listed itself. -/
lemma count_targetsOf (host name : String) :
    ((selection.targetsOf host).map (·.name)).count name = 0 ∨
      ((selection.targetsOf host).map (·.name)).count name = (selection.hosts.map (·.name)).count host := by
  obtain ⟨targets, hnames, heq⟩ := targetsOf_eq_replicated hunique hselect host
  rw [names_selected hunique hselect, heq, count_replicated]
  by_cases hmem : name ∈ targets.map (·.name)
  · rw [List.count_eq_one_of_mem hnames hmem, Nat.mul_one]
    exact .inr rfl
  · rw [List.count_eq_zero.mpr hmem, Nat.mul_zero]
    exact .inl rfl

end Selected

/-! ### No pipeline for a repeated host -/

/-- Every host has steps, so a repeated host is a repeated purpose. -/
lemma nodup_hosts_of_purposes {selection : Selection} (h : (purposes selection).Nodup) :
    selection.hosts.Nodup := by
  refine (List.nodup_flatMap.mp h).2.imp ?_
  rintro host _ hdisjoint rfl
  have hstep : .step .prereqs host.name ∈ hostPurposes selection host.name :=
    List.mem_append_left _ (List.mem_map_of_mem (by decide))
  exact hdisjoint hstep hstep

lemma topLevel_ne_ok {p : Plan} {selection : Selection} (hselect : p.select = .ok selection)
    (hrepeated : ¬selection.hosts.Nodup) (pipeline : Pipeline) : p.topLevel ≠ .ok pipeline := by
  intro h
  obtain ⟨selected, jobs, hselected, hfulfills, hplaceable, _⟩ := topLevel_jobs h
  obtain rfl : selection = selected := Except.ok.inj (hselect.symm.trans hselected)
  exact hrepeated (nodup_hosts_of_purposes (nodup_order hfulfills hplaceable.names))

lemma place_eq_error {pipeline : Pipeline} {job : Job} {error : PlanError} :
    place pipeline job = .error error ↔ ∃ reason, pipeline.add job = .error reason ∧ .placement reason = error := by
  unfold place
  cases pipeline.add job with
  | ok next => simp
  | error reason => simp

/-- Jobs that could be placed but for their names are turned down for a name. -/
lemma pipelineOf_eq_duplicateName {p : Plan} {kind : PipelineKind} {jobs : List Job}
    (hstages : ∀ job ∈ jobs, job.stage ∈ p.catalog.names kind)
    (hprerequisite : ∀ job ∈ jobs, ∀ target, Pipeline.prerequisite? job = some target →
      ∃ earlier ∈ jobs, earlier.name = target ∧
        (p.catalog.names kind).idxOf earlier.stage < (p.catalog.names kind).idxOf job.stage)
    (hnames : ¬(jobs.map (·.name)).Nodup) :
    ∃ job ∈ jobs, p.pipelineOf kind jobs = .error (.placement (.duplicateName job.name)) := by
  have hmem : ∀ {job : Job}, job ∈ inStageOrder (p.catalog.names kind) jobs ↔ job ∈ jobs :=
    mem_inStageOrder _ _ _
  cases hpipeline : p.pipelineOf kind jobs with
  | ok pipeline => exact (hnames (pipelineOf_succeeds_iff.mp ⟨pipeline, hpipeline⟩).names).elim
  | error error =>
    obtain ⟨start, _, hstart, hempty, heq⟩ := pipelineOf_eq_foldlM p kind jobs
    obtain ⟨before, job, after, reached, hsplit, hreached, hplace⟩ := foldlM_eq_error.mp (heq.symm.trans hpipeline)
    obtain ⟨hfit, rfl⟩ := (foldlM_place_eq_ok (by simp [hempty]) (by simp [hempty])).mp hreached
    obtain ⟨reason, hadd, rfl⟩ := place_eq_error.mp hplace
    rw [hempty] at hfit
    have hjob : job ∈ jobs := by
      rw [← hmem, hsplit]
      simp
    have hsorted := inStageOrder_sorted hstages
    rw [hsplit] at hsorted
    have hrejected := (add_eq_error_iff (by simpa [hempty] using hfit)).mp hadd
    cases hrejected with
    | unknownStage hstage => exact (hstage (hstart ▸ hstages job hjob)).elim
    | duplicateName _ _ => exact ⟨job, hjob, rfl⟩
    | danglingTrigger _ _ htarget hnone =>
      -- what the job waits for is in an earlier stage, so it is placed by now
      obtain ⟨earlier, hearlier, hname, hlt⟩ := hprerequisite job hjob _ htarget
      have hplaced : earlier ∈ before := mem_before hsorted (hsplit ▸ hmem.mpr hearlier) hlt
      refine (hnone earlier ?_ hname ?_).elim
      · simp [hplaced]
      · rwa [hstart]

lemma topLevel_eq_duplicateName {p : Plan} (hcatalog : SuitsTopLevel p.catalog) {selection : Selection}
    (hselect : p.select = .ok selection) (hrepeated : ¬selection.hosts.Nodup) :
    ∃ name, p.topLevel = .error (.placement (.duplicateName name)) := by
  obtain ⟨generateStage, hgenerate⟩ : ∃ stage, p.catalog.stageFor? .host .generateChildren = some stage :=
    hcatalog.stageFor? (by simp)
  obtain ⟨triggerStage, htrigger⟩ : ∃ stage, p.catalog.stageFor? .host .triggerChildren = some stage :=
    hcatalog.stageFor? (by simp)
  obtain ⟨jobs, hjobs⟩ := topLevelJobs_succeeds hcatalog selection generateStage triggerStage selection.hosts
  have hfulfills : List.Forall₂ (Fulfills p) (purposes selection) jobs :=
    topLevelJobs_fulfill hgenerate htrigger hjobs
  have htop : p.topLevel = p.pipelineOf .host jobs := by
    rw [topLevel, hselect, stage_eq_ok.mpr hgenerate, stage_eq_ok.mpr htrigger]
    change p.topLevelJobs selection generateStage triggerStage selection.hosts >>= p.pipelineOf .host = _
    rw [hjobs]
    rfl
  have hstages : ∀ job ∈ jobs, job.stage ∈ p.catalog.names .host := by
    intro job hjob
    obtain ⟨purpose, _, hpurpose⟩ := exists_of_forall₂ hfulfills.flip hjob
    exact mem_names_of_stageFor? hpurpose.stage
  obtain ⟨job, _, herror⟩ := pipelineOf_eq_duplicateName hstages (prerequisite_of_fulfills hcatalog hfulfills)
    fun hnames => hrepeated (nodup_hosts_of_purposes (nodup_order hfulfills hnames))
  exact ⟨job.name, htop.trans herror⟩

/-- When hosts are repeated and what comes of it. A selection has different hosts just if the directive
names one or the default list, as far as the tree has it, has none twice. Every host has each of its
targets as often as it is listed itself, so targets are repeated with their hosts and not otherwise. No
pipeline is made from a selection with a repeated host: if the catalog suits, a job name is there twice. -/
theorem select_repeats {p : Plan} (hunique : (p.inventory.platforms.map (·.name)).Nodup)
    {selection : Selection} (hselect : p.select = .ok selection) :
    (selection.hosts.Nodup ↔ directHosts p ≠ [] ∨
      (p.defaultHostNames.filter fun name => IsHostName p.inventory name).Nodup) ∧
    (∀ host name, ((selection.targetsOf host).map (·.name)).count name = 0 ∨
      ((selection.targetsOf host).map (·.name)).count name = (selection.hosts.map (·.name)).count host) ∧
    (selection.hosts.Nodup → ∀ host, ((selection.targetsOf host).map (·.name)).Nodup) ∧
    (¬selection.hosts.Nodup → (∀ pipeline, p.topLevel ≠ .ok pipeline) ∧
      (SuitsTopLevel p.catalog → ∃ name, p.topLevel = .error (.placement (.duplicateName name)))) := by
  have hwanted := nodup_hosts_iff hunique hselect
  refine ⟨hwanted.trans (nodup_wantedHosts_iff hunique), count_targetsOf hunique hselect, ?_, ?_⟩
  · exact fun hdistinct => nodup_targetsOf hunique hselect (hwanted.mp hdistinct)
  · exact fun hrepeated => ⟨topLevel_ne_ok hselect hrepeated, (topLevel_eq_duplicateName · hselect hrepeated)⟩

def repeatedPlan : Plan where
  settings := { Settings.standard with defaultHosts := ["centos7", "centos7"] }
  catalog := .v2
  inventory := ⟨[], [⟨"centos7", "core", .rcc .host, ∅⟩, ⟨"zed", "platform", .hdl .cross false, ∅⟩]⟩
  run := default
  directive := ((Directive.parse .reset "zed").toOption).getD ⟨∅⟩

/-- A default host that is listed twice builds its target twice, and the run has no pipeline. -/
theorem select_repeats_defaults :
    (repeatedPlan.inventory.platforms.map (·.name)).Nodup ∧
    ∃ selection, repeatedPlan.select = .ok selection ∧ ¬selection.hosts.Nodup ∧
      (selection.targetsOf "centos7").map (·.name) = ["zed", "zed"] ∧
      ∃ name, repeatedPlan.topLevel = .error (.placement (.duplicateName name)) := by
  have hunique : (repeatedPlan.inventory.platforms.map (·.name)).Nodup := by decide
  have hcatalog : SuitsTopLevel repeatedPlan.catalog := ⟨rfl, by decide, by decide, by decide⟩
  obtain ⟨selection, hselect⟩ : ∃ selection, repeatedPlan.select = .ok selection :=
    succeeds_of_isSome (by decide +kernel)
  obtain ⟨hdistinct, _, _, hfails⟩ := select_repeats hunique hselect
  have hrepeated : ¬selection.hosts.Nodup := by
    rw [hdistinct]
    decide +kernel
  have htargets : repeatedPlan.select.toOption.map (fun s => (s.targetsOf "centos7").map (·.name)) =
      some ["zed", "zed"] := by
    decide +kernel
  rw [hselect] at htargets
  exact ⟨hunique, selection, hselect, hrepeated, Option.some.inj htargets, (hfails hrepeated).2 hcatalog⟩

end CrossBuild.Proofs
