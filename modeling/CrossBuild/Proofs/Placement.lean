import CrossBuild.Proofs.GeneratedJobs
import CrossBuild.Proofs.MapLookup

/-!
# Placing jobs into stages

A pipeline takes jobs one at a time, and a later job may depend on what is there already. `AllFit` says
what it takes for a whole list of jobs to be accepted as it stands. Sorting jobs by stage loses and
doubles none of them, so whether jobs make a pipeline does not depend on their order: by
`pipelineOf_succeeds_iff` they do just if their stages are known, their names differ and every one that
starts a child is in a later stage than the job that describes the child.
-/

namespace CrossBuild.Proofs
open Plan

/-! ### One job -/

lemma stageIndex?_eq_some {pipeline : Pipeline} {stage : String} {i : Nat} :
    pipeline.stageIndex? stage = some i ↔ stage ∈ pipeline.stages ∧ pipeline.stages.idxOf stage = i := by
  rw [Pipeline.stageIndex?, List.findIdx?_eq_some_iff_findIdx_eq, ← List.idxOf_lt_length_iff]
  constructor
  · rintro ⟨hi, rfl⟩
    exact ⟨hi, rfl⟩
  · rintro ⟨hi, rfl⟩
    exact ⟨hi, rfl⟩

/-- A job that can come next, after some jobs that are placed. -/
structure FitsAfter (stages : List String) (placed : List Job) (job : Job) : Prop where
  stage : job.stage ∈ stages
  name : job.name ∉ placed.map (·.name)
  prerequisite : ∀ target, Pipeline.prerequisite? job = some target →
    ∃ earlier ∈ placed, earlier.name = target ∧ stages.idxOf earlier.stage < stages.idxOf job.stage

lemma job?_isSome {pipeline : Pipeline} {name : String} :
    (pipeline.job? name).isSome = true ↔ name ∈ pipeline.jobs.map (·.name) := by
  simp [Pipeline.job?]

section Placed

variable {pipeline : Pipeline} (hstages : ∀ job ∈ pipeline.jobs, job.stage ∈ pipeline.stages)
  (hnames : (pipeline.jobs.map (·.name)).Nodup)

include hstages hnames

lemma hasEarlier_iff (name : String) (index : Nat) :
    pipeline.hasEarlier name index = true ↔
      ∃ earlier ∈ pipeline.jobs, earlier.name = name ∧ pipeline.stages.idxOf earlier.stage < index := by
  have hfind : ∀ job, pipeline.job? name = some job ↔ job ∈ pipeline.jobs ∧ job.name = name :=
    fun job => find?_name_eq_some hnames
  unfold Pipeline.hasEarlier
  simp only [Option.any_eq_true, Option.bind_eq_some_iff, hfind, stageIndex?_eq_some, decide_eq_true_iff]
  constructor
  · rintro ⟨_, ⟨job, ⟨hmem, hname⟩, _, rfl⟩, hlt⟩
    exact ⟨job, hmem, hname, hlt⟩
  · rintro ⟨job, hmem, hname, hlt⟩
    exact ⟨_, ⟨job, ⟨hmem, hname⟩, hstages job hmem, rfl⟩, hlt⟩

lemma place_eq_ok_iff {job : Job} {next : Pipeline} :
    place pipeline job = .ok next ↔ FitsAfter pipeline.stages pipeline.jobs job ∧
      { pipeline with jobs := pipeline.jobs ++ [job] } = next := by
  constructor
  · intro h
    refine ⟨?_, (place_eq_ok h).symm⟩
    unfold place Pipeline.add at h
    split at h
    · rename_i hadd
      split at hadd
      · cases hadd
      · rename_i index hindex
        obtain ⟨hstage, rfl⟩ := stageIndex?_eq_some.mp hindex
        split at hadd
        · cases hadd
        · rename_i hname
          refine ⟨hstage, by rwa [job?_isSome] at hname, fun target htarget => ?_⟩
          rw [htarget] at hadd
          dsimp only at hadd
          split at hadd
          · rename_i hearlier
            exact (hasEarlier_iff hstages hnames target _).mp hearlier
          · cases hadd
    · cases h
  · rintro ⟨hfits, rfl⟩
    have hindex := stageIndex?_eq_some.mpr ⟨hfits.stage, rfl⟩
    have hname : ¬(pipeline.job? job.name).isSome = true := by
      rw [job?_isSome]
      exact hfits.name
    unfold place Pipeline.add
    rw [hindex]
    dsimp only
    rw [if_neg hname]
    cases hpre : Pipeline.prerequisite? job with
    | none => rfl
    | some target =>
      dsimp only
      rw [if_pos ((hasEarlier_iff hstages hnames target _).mpr (hfits.prerequisite target hpre))]

end Placed

/-! ### All jobs -/

/-- Each job fits after those that are placed and those before it. -/
def AllFit (stages : List String) (placed jobs : List Job) : Prop :=
  ∀ before job after, jobs = before ++ job :: after → FitsAfter stages (placed ++ before) job

lemma allFit_nil (stages : List String) (placed : List Job) : AllFit stages placed [] := by
  intro before job after h
  simp at h

lemma allFit_cons {stages : List String} {placed jobs : List Job} {job : Job} :
    AllFit stages placed (job :: jobs) ↔
      FitsAfter stages placed job ∧ AllFit stages (placed ++ [job]) jobs := by
  constructor
  · intro h
    refine ⟨by simpa using h [] job jobs rfl, fun before later after heq => ?_⟩
    simpa using h (job :: before) later after (by rw [heq, List.cons_append])
  · rintro ⟨hjob, hjobs⟩ before later after heq
    cases before with
    | nil =>
      cases heq
      simpa using hjob
    | cons first before =>
      cases heq
      simpa using hjobs before later after rfl

lemma AllFit.stage_mem {stages : List String} {placed jobs : List Job} (h : AllFit stages placed jobs)
    {job : Job} (hjob : job ∈ jobs) : job.stage ∈ stages := by
  obtain ⟨before, after, heq⟩ := List.append_of_mem hjob
  exact (h before job after heq).stage

lemma AllFit.nodup_names {stages : List String} {jobs : List Job} (h : AllFit stages [] jobs) :
    (jobs.map (·.name)).Nodup := by
  have hall : ∀ placed, (placed.map (·.name)).Nodup → AllFit stages placed jobs →
      ((placed ++ jobs).map (·.name)).Nodup := by
    clear h
    induction jobs with
    | nil =>
      intro placed hplaced _
      simpa using hplaced
    | cons job jobs ih =>
      intro placed hplaced hfit
      obtain ⟨hjob, hjobs⟩ := allFit_cons.mp hfit
      have hnext : ((placed ++ [job]).map (·.name)).Nodup := by
        rw [List.map_append]
        exact List.nodup_append_comm.mp (List.nodup_cons.mpr ⟨hjob.name, hplaced⟩)
      simpa using ih (placed ++ [job]) hnext hjobs
  simpa using hall [] (by simp) h

/-- A list of jobs is accepted just if all of them fit. -/
lemma foldlM_place_eq_ok {jobs : List Job} {pipeline next : Pipeline}
    (hstages : ∀ job ∈ pipeline.jobs, job.stage ∈ pipeline.stages)
    (hnames : (pipeline.jobs.map (·.name)).Nodup) :
    jobs.foldlM place pipeline = .ok next ↔
      AllFit pipeline.stages pipeline.jobs jobs ∧
        { pipeline with jobs := pipeline.jobs ++ jobs } = next := by
  induction jobs generalizing pipeline with
  | nil => simp [allFit_nil, pure_eq_ok]
  | cons job jobs ih =>
    have hstep : FitsAfter pipeline.stages pipeline.jobs job →
        (∀ other ∈ pipeline.jobs ++ [job], other.stage ∈ pipeline.stages) ∧
          ((pipeline.jobs ++ [job]).map (·.name)).Nodup := by
      intro hfits
      refine ⟨?_, ?_⟩
      · intro other hother
        rcases List.mem_append.mp hother with hother | hother
        · exact hstages other hother
        · obtain rfl := List.mem_singleton.mp hother
          exact hfits.stage
      · rw [List.map_append]
        exact List.nodup_append_comm.mp (List.nodup_cons.mpr ⟨hfits.name, hnames⟩)
    -- a job that fits keeps the pipeline in the state that the next one needs
    simp only [List.foldlM_cons, bind_eq_ok, place_eq_ok_iff hstages hnames, allFit_cons, and_assoc]
    constructor
    · rintro ⟨_, hfits, rfl, hrest⟩
      obtain ⟨hnext, hunique⟩ := hstep hfits
      obtain ⟨hall, rfl⟩ := (ih hnext hunique).mp hrest
      exact ⟨hfits, hall, by simp⟩
    · rintro ⟨hfits, hall, rfl⟩
      obtain ⟨hnext, hunique⟩ := hstep hfits
      exact ⟨_, hfits, rfl, (ih hnext hunique).mpr ⟨hall, by simp⟩⟩

/-! ### The order of the stages -/

lemma idxOf_lt_of_filter {keep : String → Bool} {a b : String} (ha : keep a = true) (hb : keep b = true)
    {names : List String} (h : (names.filter keep).idxOf a < (names.filter keep).idxOf b) :
    names.idxOf a < names.idxOf b := by
  induction names with
  | nil => simp at h
  | cons name names ih =>
    by_cases hname : keep name = true
    · rw [List.filter_cons_of_pos hname] at h
      by_cases hnb : name = b
      · simp [hnb] at h
      · by_cases hna : name = a
        · subst hna
          simp [List.idxOf_cons_ne _ hnb]
        · simp only [List.idxOf_cons_ne _ hna, List.idxOf_cons_ne _ hnb] at h ⊢
          exact Nat.succ_lt_succ (ih (Nat.lt_of_succ_lt_succ h))
    · have hna : name ≠ a := by
        rintro rfl
        exact hname ha
      have hnb : name ≠ b := by
        rintro rfl
        exact hname hb
      rw [List.filter_cons_of_neg hname] at h
      simp only [List.idxOf_cons_ne _ hna, List.idxOf_cons_ne _ hnb]
      exact Nat.succ_lt_succ (ih h)

/-- The first occurrences of names stay in their order. -/
lemma eraseDups_increasing (names : List String) :
    names.eraseDups.Pairwise (fun a b => names.idxOf a < names.idxOf b) := by
  match names with
  | [] => simp
  | name :: names =>
    rw [List.eraseDups_cons, List.pairwise_cons]
    have hne : ∀ other ∈ (names.filter fun b => !b == name).eraseDups, name ≠ other := by
      rintro other hother rfl
      simp at hother
    refine ⟨fun other hother => ?_, ?_⟩
    · simp [List.idxOf_cons_ne _ (hne other hother)]
    · -- the rest comes from the names without the first one, hence induction on the length
      have ih := eraseDups_increasing (names.filter fun b => !b == name)
      refine ih.imp_of_mem ?_
      intro a b ha hb hlt
      rw [List.idxOf_cons_ne _ (hne a ha), List.idxOf_cons_ne _ (hne b hb)]
      refine Nat.succ_lt_succ (idxOf_lt_of_filter ?_ ?_ hlt)
      · simpa using (hne a ha).symm
      · simpa using (hne b hb).symm
termination_by names.length
decreasing_by exact Nat.lt_succ_of_le (List.length_filter_le _ _)

lemma nodup_eraseDups (names : List String) : names.eraseDups.Nodup := by
  refine (eraseDups_increasing names).imp ?_
  rintro a _ hlt rfl
  exact Nat.lt_irrefl _ hlt

/-- Sorting items into bins loses and doubles none of those that have a bin. -/
lemma flatMap_filter_perm {α β : Type} [BEq β] [LawfulBEq β] (bin : α → β) (items : List α) {bins : List β}
    (h : bins.Nodup) :
    (bins.flatMap fun b => items.filter (bin · == b)).Perm (items.filter (bins.contains <| bin ·)) := by
  induction bins with
  | nil => simp
  | cons b bins ih =>
    obtain ⟨hnot, hrest⟩ := List.nodup_cons.mp h
    have hsplit := List.filter_append_perm (bin · == b) (items.filter ((b :: bins).contains <| bin ·))
    have hhere : (items.filter ((b :: bins).contains <| bin ·)).filter (bin · == b) =
        items.filter (bin · == b) := by
      rw [List.filter_filter]
      refine List.filter_congr fun item _ => ?_
      by_cases hbin : bin item = b
      · simp [hbin]
      · simp [hbin]
    have hthere : (items.filter ((b :: bins).contains <| bin ·)).filter (fun item => !(bin item == b)) =
        items.filter (bins.contains <| bin ·) := by
      rw [List.filter_filter]
      refine List.filter_congr fun item _ => ?_
      by_cases hbin : bin item = b
      · simp [hbin, hnot]
      · simp [hbin]
    rw [hhere, hthere] at hsplit
    exact ((ih hrest).append_left _).trans hsplit

lemma inStageOrder_perm (stages : List String) (jobs : List Job) :
    (inStageOrder stages jobs).Perm jobs := by
  have hsplit := List.filter_append_perm (fun job : Job => !stages.contains job.stage) jobs
  have hbins := flatMap_filter_perm (·.stage) jobs (nodup_eraseDups stages)
  refine (hbins.append_left _).trans ?_
  simpa using hsplit

/-- If all stages are known then only the order of the stages is seen. -/
lemma inStageOrder_eq_flatMap {stages : List String} {jobs : List Job}
    (h : ∀ job ∈ jobs, job.stage ∈ stages) :
    inStageOrder stages jobs = stages.eraseDups.flatMap fun stage => jobs.filter (·.stage == stage) := by
  have hnone : jobs.filter (fun job => !stages.contains job.stage) = [] := by
    simpa using h
  rw [inStageOrder, hnone, List.nil_append]

lemma inStageOrder_sorted {stages : List String} {jobs : List Job}
    (h : ∀ job ∈ jobs, job.stage ∈ stages) :
    (inStageOrder stages jobs).Pairwise (fun a b => stages.idxOf a.stage ≤ stages.idxOf b.stage) := by
  have hstage : ∀ {stage : String} {job : Job}, job ∈ jobs.filter (·.stage == stage) → job.stage = stage := by
    intro stage job hjob
    simpa using (List.mem_filter.mp hjob).2
  rw [inStageOrder_eq_flatMap h, List.pairwise_flatMap]
  refine ⟨fun stage _ => List.pairwise_of_forall_mem_list fun a ha b hb => ?_, ?_⟩
  · exact Nat.le_of_eq (by rw [hstage ha, hstage hb])
  · refine (eraseDups_increasing stages).imp ?_
    intro first second hlt a ha b hb
    rw [hstage ha, hstage hb]
    exact Nat.le_of_lt hlt

/-! ### Jobs that make a pipeline -/

/-- Jobs that can be placed in the order of their stages. -/
structure Placeable (stages : List String) (jobs : List Job) : Prop where
  stage : ∀ job ∈ jobs, job.stage ∈ stages
  names : (jobs.map (·.name)).Nodup
  prerequisite : ∀ job ∈ jobs, ∀ target, Pipeline.prerequisite? job = some target →
    ∃ earlier ∈ jobs, earlier.name = target ∧ stages.idxOf earlier.stage < stages.idxOf job.stage

lemma Placeable.perm {stages : List String} {jobs jobs' : List Job} (h : Placeable stages jobs)
    (hperm : jobs.Perm jobs') : Placeable stages jobs' := by
  refine ⟨?_, (hperm.map _).nodup_iff.mp h.names, ?_⟩
  · intro job hjob
    exact h.stage job (hperm.mem_iff.mpr hjob)
  · intro job hjob target htarget
    obtain ⟨earlier, hearlier, hname, hlt⟩ := h.prerequisite job (hperm.mem_iff.mpr hjob) target htarget
    exact ⟨earlier, hperm.mem_iff.mp hearlier, hname, hlt⟩

lemma AllFit.placeable {stages : List String} {jobs : List Job} (h : AllFit stages [] jobs) :
    Placeable stages jobs := by
  refine ⟨fun job => h.stage_mem, h.nodup_names, fun job hjob target htarget => ?_⟩
  obtain ⟨before, after, heq⟩ := List.append_of_mem hjob
  obtain ⟨earlier, hearlier, hname⟩ := (h before job after heq).prerequisite target htarget
  exact ⟨earlier, by simp_all, hname⟩

/-- In the order of the stages, all that is in an earlier stage than some job stands before it. -/
lemma mem_before {stages : List String} {before after : List Job} {job earlier : Job}
    (hsorted : (before ++ job :: after).Pairwise (fun a b => stages.idxOf a.stage ≤ stages.idxOf b.stage))
    (hearlier : earlier ∈ before ++ job :: after)
    (hlt : stages.idxOf earlier.stage < stages.idxOf job.stage) : earlier ∈ before := by
  rcases List.mem_append.mp hearlier with hmem | hmem
  · exact hmem
  · -- from here on no stage is earlier
    have hle : stages.idxOf job.stage ≤ stages.idxOf earlier.stage := by
      rcases List.mem_cons.mp hmem with rfl | hmem
      · exact Nat.le_refl _
      · have hafter := (List.pairwise_append.mp hsorted).2.1
        exact (List.pairwise_cons.mp hafter).1 earlier hmem
    omega

lemma Placeable.allFit {stages : List String} {jobs : List Job} (h : Placeable stages jobs)
    (hsorted : jobs.Pairwise (fun a b => stages.idxOf a.stage ≤ stages.idxOf b.stage)) :
    AllFit stages [] jobs := by
  rintro before job after rfl
  refine ⟨h.stage job (by simp), ?_, fun target htarget => ?_⟩
  · have hnames := h.names
    rw [List.map_append, List.map_cons] at hnames
    intro hmem
    exact (List.nodup_append.mp hnames).2.2 _ hmem _ List.mem_cons_self rfl
  · obtain ⟨earlier, hearlier, hname, hlt⟩ := h.prerequisite job (by simp) target htarget
    exact ⟨earlier, mem_before hsorted hearlier hlt, hname, hlt⟩

/-- Jobs make a pipeline just if they can be placed, in whatever order they come. -/
theorem pipelineOf_succeeds_iff {p : Plan} {kind : PipelineKind} {jobs : List Job} :
    (∃ pipeline, p.pipelineOf kind jobs = .ok pipeline) ↔ Placeable (p.catalog.names kind) jobs := by
  have hperm := inStageOrder_perm (p.catalog.names kind) jobs
  obtain ⟨start, _, hstages, hjobs, heq⟩ := pipelineOf_eq_foldlM p kind jobs
  have hfit : (∃ pipeline, p.pipelineOf kind jobs = .ok pipeline) ↔
      AllFit (p.catalog.names kind) [] (inStageOrder (p.catalog.names kind) jobs) := by
    simp [heq, foldlM_place_eq_ok, hjobs, hstages]
  rw [hfit]
  constructor
  · intro h
    exact h.placeable.perm hperm
  · intro h
    exact (h.perm hperm.symm).allFit (inStageOrder_sorted h.stage)

end CrossBuild.Proofs
