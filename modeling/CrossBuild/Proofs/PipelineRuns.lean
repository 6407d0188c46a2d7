import CrossBuild.Proofs.Placement

/-!
# Pipelines that are asked for jobs in any order

Whoever makes a pipeline may ask for jobs that it does not accept, and go on. Between the requests the
pipeline also keeps an index from the names of its jobs to their positions, so that no job is searched
for. The index is only of use if it never disagrees with the list of jobs. Here the pipeline with an
index is run beside the one without, which is the plain definition of what a pipeline accepts: they give
the same answers at every request, and `pipeline_runs` says in what state any run leaves them.
-/

namespace CrossBuild.Proofs

/-! ### Pipelines with an index -/

/-- A pipeline and the positions of its jobs, by name. -/
structure IndexedPipeline where
  pipeline : Pipeline
  index : SortedMap String Nat

namespace IndexedPipeline

def ofStages (kind : PipelineKind) (stages : List String) : IndexedPipeline :=
  ⟨Pipeline.ofStages kind stages, ∅⟩

def job? (p : IndexedPipeline) (name : String) : Option Job :=
  (p.index.get? name).bind fun i => p.pipeline.jobs[i]?

def hasEarlier (p : IndexedPipeline) (name : String) (index : Nat) : Bool :=
  ((p.job? name).bind fun job => p.pipeline.stageIndex? job.stage).any (· < index)

def setVariable (p : IndexedPipeline) (key value : String) : IndexedPipeline :=
  { p with pipeline := p.pipeline.setVariable key value }

/-- Adds a job at the end and its position to the index. -/
def add (job : Job) : ExceptT PlacementError (StateM IndexedPipeline) Unit := do
  let p ← get
  match p.pipeline.stageIndex? job.stage with
  | none => throw (.unknownStage job.name job.stage p.pipeline.kind)
  | some index =>
    if p.index.contains job.name then throw (.duplicateName job.name)
    match Pipeline.prerequisite? job with
    | some target =>
      if !p.hasEarlier target index then throw (.danglingTrigger job.name target)
    | none => pure ()
    modify fun p => { p with index := p.index.insert job.name p.pipeline.jobs.length }
    modify fun p => { p with pipeline := { p.pipeline with jobs := p.pipeline.jobs ++ [job] } }

end IndexedPipeline

/-- What a pipeline can be asked for. -/
inductive Request where
  | add (job : Job)
  | setVariable (key value : String)

/-- The answer to a request, and the pipeline as it is afterwards. -/
def IndexedPipeline.answer (p : IndexedPipeline) : Request → Except PlacementError Unit × IndexedPipeline
  | .add job => (IndexedPipeline.add job).run.run p
  | .setVariable key value => (.ok (), p.setVariable key value)

def IndexedPipeline.after (p : IndexedPipeline) (requests : List Request) : IndexedPipeline :=
  requests.foldl (fun p request => (p.answer request).2) p

/-- The job that a request adds, going by the answer. -/
def Request.added : Request → Except PlacementError Unit → Option Job
  | .add job, .ok _ => some job
  | _, _ => none

/-- The jobs that are accepted, in the order of the requests. -/
def IndexedPipeline.accepted (p : IndexedPipeline) : List Request → List Job
  | [] => []
  | request :: requests =>
    (request.added (p.answer request).1).toList ++ (p.answer request).2.accepted requests

/-- What a request does to a pipeline without an index. A job that is not accepted is passed over. -/
def plainly (p : Pipeline) : Request → Pipeline
  | .add job =>
    match p.add job with
    | .ok next => next
    | .error _ => p
  | .setVariable key value => p.setVariable key value

/-! ### What is true between requests -/

/-- The index has each name at its position, and each job fits after those before it. -/
structure IsInStep (p : IndexedPipeline) : Prop where
  index : ∀ name i, p.index.get? name = some i ↔ ∃ job, p.pipeline.jobs[i]? = some job ∧ job.name = name
  fit : AllFit p.pipeline.stages [] p.pipeline.jobs

/-- The reason for which a job is turned down. -/
inductive IsRejected (p : Pipeline) (job : Job) : PlacementError → Prop where
  | unknownStage : job.stage ∉ p.stages → IsRejected p job (.unknownStage job.name job.stage p.kind)
  | duplicateName : job.stage ∈ p.stages → job.name ∈ p.jobs.map (·.name) →
      IsRejected p job (.duplicateName job.name)
  | danglingTrigger {target : String} : job.stage ∈ p.stages → job.name ∉ p.jobs.map (·.name) →
      Pipeline.prerequisite? job = some target →
      (∀ earlier ∈ p.jobs, earlier.name = target →
        ¬p.stages.idxOf earlier.stage < p.stages.idxOf job.stage) →
      IsRejected p job (.danglingTrigger job.name target)

lemma not_fitsAfter_of_isRejected {p : Pipeline} {job : Job} {e : PlacementError}
    (h : IsRejected p job e) : ¬FitsAfter p.stages p.jobs job := by
  intro hfits
  cases h with
  | unknownStage hstage => exact hstage hfits.stage
  | duplicateName _ hname => exact hfits.name hname
  | danglingTrigger _ _ htarget hnone =>
    obtain ⟨earlier, hmem, hname, hlt⟩ := hfits.prerequisite _ htarget
    exact hnone earlier hmem hname hlt

lemma AllFit.append_singleton {stages : List String} {jobs : List Job} {job : Job}
    (h : AllFit stages [] jobs) (hjob : FitsAfter stages jobs job) : AllFit stages [] (jobs ++ [job]) := by
  intro before other after heq
  rcases List.eq_nil_or_concat after with rfl | ⟨rest, last, rfl⟩
  · obtain ⟨rfl, hother⟩ := List.append_inj' heq rfl
    cases hother
    exact hjob
  · have hends : jobs ++ [job] = (before ++ other :: rest) ++ [last] := by simpa using heq
    exact h before other rest (List.append_inj' hends rfl).1

/-! ### The verdict on a job -/

section Verdict

variable {p : Pipeline} (hfit : AllFit p.stages [] p.jobs)

include hfit

/-- A job is turned down for one reason, the first that applies, and otherwise it fits. -/
lemma add_eq (job : Job) :
    (∃ e, p.add job = .error e ∧ IsRejected p job e) ∨
      p.add job = .ok { p with jobs := p.jobs ++ [job] } ∧ FitsAfter p.stages p.jobs job := by
  have hearlier := hasEarlier_iff (fun _ => hfit.stage_mem) hfit.nodup_names
  unfold Pipeline.add
  cases hindex : p.stageIndex? job.stage with
  | none =>
    have hstage : job.stage ∉ p.stages := by
      intro hmem
      rw [stageIndex?_eq_some.mpr ⟨hmem, rfl⟩] at hindex
      cases hindex
    exact .inl ⟨_, rfl, .unknownStage hstage⟩
  | some index =>
    obtain ⟨hstage, rfl⟩ := stageIndex?_eq_some.mp hindex
    dsimp only
    split
    · rename_i hname
      exact .inl ⟨_, rfl, .duplicateName hstage (job?_isSome.mp hname)⟩
    · rename_i hname
      rw [job?_isSome] at hname
      cases hpre : Pipeline.prerequisite? job with
      | none =>
        refine .inr ⟨rfl, hstage, hname, ?_⟩
        intro target htarget
        rw [hpre] at htarget
        cases htarget
      | some target =>
        dsimp only
        split
        · rename_i hhas
          refine .inr ⟨rfl, hstage, hname, ?_⟩
          intro other hother
          rw [hpre, Option.some_inj] at hother
          exact hother ▸ (hearlier target _).mp hhas
        · rename_i hhas
          refine .inl ⟨_, rfl, .danglingTrigger hstage hname hpre ?_⟩
          intro earlier hmem hsame hlt
          exact hhas ((hearlier target _).mpr ⟨earlier, hmem, hsame, hlt⟩)

lemma add_eq_error_iff {job : Job} {e : PlacementError} : p.add job = .error e ↔ IsRejected p job e := by
  constructor
  · intro h
    rcases add_eq hfit job with ⟨e', he', hrejected⟩ | ⟨hok, _⟩
    · rw [h] at he'
      cases he'
      exact hrejected
    · rw [h] at hok
      cases hok
  · intro h
    rcases add_eq hfit job with ⟨e', he', hrejected⟩ | ⟨_, hfits⟩
    · -- the reasons exclude each other
      rw [he']
      congr 1
      cases h <;> cases hrejected <;> simp_all
    · exact (not_fitsAfter_of_isRejected h hfits).elim

end Verdict

/-! ### One request -/

lemma IsInStep.job?_eq {p : IndexedPipeline} (h : IsInStep p) (name : String) :
    p.job? name = p.pipeline.job? name := by
  apply Option.ext
  intro job
  rw [Pipeline.job?, find?_name_eq_some h.fit.nodup_names, IndexedPipeline.job?]
  simp only [Option.bind_eq_some_iff, h.index, List.mem_iff_getElem?]
  constructor
  · rintro ⟨i, ⟨found, hfound, hname⟩, hjob⟩
    rw [hfound, Option.some_inj] at hjob
    exact ⟨⟨i, hjob ▸ hfound⟩, hjob ▸ hname⟩
  · rintro ⟨⟨i, hjob⟩, hname⟩
    exact ⟨i, ⟨job, hjob, hname⟩, hjob⟩

lemma IsInStep.contains_iff {p : IndexedPipeline} (h : IsInStep p) (name : String) :
    p.index.contains name = (p.pipeline.job? name).isSome := by
  rw [Bool.eq_iff_iff, contains_eq_true, job?_isSome, List.mem_map]
  simp only [h.index, List.mem_iff_getElem?]
  constructor
  · rintro ⟨i, job, hjob, hname⟩
    exact ⟨job, ⟨i, hjob⟩, hname⟩
  · rintro ⟨job, ⟨i, hjob⟩, hname⟩
    exact ⟨i, job, hjob, hname⟩

/-- With the index in step, a job is accepted or turned down just as it is without one. -/
lemma IsInStep.run_add {p : IndexedPipeline} (h : IsInStep p) (job : Job) :
    (IndexedPipeline.add job).run.run p =
      match p.pipeline.add job with
      | .error e => (.error e, p)
      | .ok next => (.ok (), ⟨next, p.index.insert job.name p.pipeline.jobs.length⟩) := by
  have hearlier : ∀ name index, p.hasEarlier name index = p.pipeline.hasEarlier name index := by
    intro name index
    rw [IndexedPipeline.hasEarlier, Pipeline.hasEarlier, h.job?_eq]
  have hseen : ∀ work : IndexedPipeline → ExceptT PlacementError (StateM IndexedPipeline) Unit,
      (get >>= work).run.run p = (work p).run.run p := fun _ => rfl
  rw [IndexedPipeline.add, hseen, Pipeline.add]
  cases p.pipeline.stageIndex? job.stage with
  | none => rfl
  | some index =>
    dsimp only
    rw [h.contains_iff]
    cases (p.pipeline.job? job.name).isSome with
    | true => rfl
    | false =>
      cases Pipeline.prerequisite? job with
      | none => rfl
      | some target =>
        dsimp only
        rw [hearlier]
        cases p.pipeline.hasEarlier target index with
        | true => rfl
        | false => rfl

/-- Everything that a request can do. -/
lemma IsInStep.answer_cases {p : IndexedPipeline} (h : IsInStep p) (request : Request) :
    (∃ key value, request = .setVariable key value ∧ p.answer request = (.ok (), p.setVariable key value)) ∨
      (∃ job e, request = .add job ∧ p.pipeline.add job = .error e ∧ IsRejected p.pipeline job e ∧
        p.answer request = (.error e, p)) ∨
      ∃ job next, request = .add job ∧ p.pipeline.add job = .ok next ∧
        FitsAfter p.pipeline.stages p.pipeline.jobs job ∧
        next = { p.pipeline with jobs := p.pipeline.jobs ++ [job] } ∧
        p.answer request = (.ok (), ⟨next, p.index.insert job.name p.pipeline.jobs.length⟩) := by
  cases request with
  | setVariable key value => exact .inl ⟨key, value, rfl, rfl⟩
  | add job =>
    have hrun := h.run_add job
    rcases add_eq h.fit job with ⟨e, he, hrejected⟩ | ⟨hok, hfits⟩
    · rw [he] at hrun
      exact .inr (.inl ⟨job, e, rfl, he, hrejected, hrun⟩)
    · rw [hok] at hrun
      exact .inr (.inr ⟨job, _, rfl, hok, hfits, rfl, hrun⟩)

/-- The position of a new job is where the next one goes. -/
lemma IsInStep.index_insert {p : IndexedPipeline} (h : IsInStep p) {job : Job}
    (hname : job.name ∉ p.pipeline.jobs.map (·.name)) (name : String) (i : Nat) :
    (p.index.insert job.name p.pipeline.jobs.length).get? name = some i ↔
      ∃ other, (p.pipeline.jobs ++ [job])[i]? = some other ∧ other.name = name := by
  have hnew : ∀ other, p.pipeline.jobs[i]? = some other → other.name ≠ job.name := by
    intro other hother heq
    exact hname (List.mem_map.mpr ⟨other, List.mem_of_getElem? hother, heq⟩)
  rw [get?_insert]
  rcases Nat.lt_trichotomy i p.pipeline.jobs.length with hlt | rfl | hgt
  · rw [List.getElem?_append_left hlt]
    split
    · rename_i heq
      constructor
      · intro hi
        rw [Option.some_inj] at hi
        omega
      · rintro ⟨other, hother, rfl⟩
        exact (hnew other hother heq).elim
    · exact h.index name i
  · have hnone : p.index.get? name ≠ some p.pipeline.jobs.length := by
      intro hget
      obtain ⟨other, hother, _⟩ := (h.index name _).mp hget
      simp at hother
    rw [List.getElem?_concat_length]
    split
    · rename_i heq
      simp [heq]
    · rename_i hne
      simp [hnone, Ne.symm hne]
  · have hnone : p.index.get? name ≠ some i := by
      intro hget
      obtain ⟨other, hother, _⟩ := (h.index name i).mp hget
      have hi := (List.getElem?_eq_some_iff.mp hother).1
      omega
    have hout : (p.pipeline.jobs ++ [job])[i]? = none := by
      rw [List.getElem?_eq_none_iff, List.length_append, List.length_singleton]
      omega
    rw [hout]
    split
    · simp only [Option.some_inj, reduceCtorEq, false_and, exists_false, iff_false]
      omega
    · simp [hnone]

lemma IsInStep.answer {p : IndexedPipeline} (h : IsInStep p) (request : Request) :
    IsInStep (p.answer request).2 := by
  rcases h.answer_cases request with ⟨key, value, rfl, hanswer⟩ | ⟨job, e, rfl, _, _, hanswer⟩ |
    ⟨job, next, rfl, _, hfits, rfl, hanswer⟩
  · rw [hanswer]
    exact ⟨h.index, h.fit⟩
  · rw [hanswer]
    exact h
  · rw [hanswer]
    exact ⟨h.index_insert hfits.name, h.fit.append_singleton hfits⟩

/-! ### A run -/

lemma isInStep_ofStages (kind : PipelineKind) (stages : List String) :
    IsInStep (IndexedPipeline.ofStages kind stages) := by
  refine ⟨fun name i => ?_, allFit_nil stages []⟩
  have hnone : (IndexedPipeline.ofStages kind stages).index.get? name = none := rfl
  rw [hnone]
  simp [IndexedPipeline.ofStages, Pipeline.ofStages]

lemma IsInStep.after {p : IndexedPipeline} (h : IsInStep p) (requests : List Request) :
    IsInStep (p.after requests) := by
  induction requests generalizing p with
  | nil => exact h
  | cons request requests ih => exact ih (h.answer request)

/-- What stays as it was, and what a run without an index gives. -/
lemma IsInStep.after_eq {p : IndexedPipeline} (h : IsInStep p) (requests : List Request) :
    (p.after requests).pipeline = requests.foldl plainly p.pipeline ∧
      (p.after requests).pipeline.kind = p.pipeline.kind ∧
      (p.after requests).pipeline.stages = p.pipeline.stages ∧
      (p.after requests).pipeline.jobs = p.pipeline.jobs ++ p.accepted requests := by
  induction requests generalizing p with
  | nil => simp [IndexedPipeline.after, IndexedPipeline.accepted]
  | cons request requests ih =>
    obtain ⟨hplain, hkind, hstages, hjobs⟩ := ih (h.answer request)
    have hafter : p.after (request :: requests) = (p.answer request).2.after requests := rfl
    rw [hafter, hkind, hstages, hjobs, hplain, List.foldl_cons, IndexedPipeline.accepted]
    rcases h.answer_cases request with ⟨key, value, rfl, hanswer⟩ | ⟨job, e, rfl, hadd, _, hanswer⟩ |
      ⟨job, next, rfl, hadd, hfits, rfl, hanswer⟩
    · simp [hanswer, plainly, Request.added, IndexedPipeline.setVariable, Pipeline.setVariable]
    · simp [hanswer, plainly, Request.added, hadd]
    · simp [hanswer, plainly, Request.added, hadd]

/-- A pipeline whose index, names, stages and triggers agree with each other. -/
structure IsConsistent (p : IndexedPipeline) : Prop where
  names : (p.pipeline.jobs.map (·.name)).Nodup
  /-- The index has each name at its position and no other name. -/
  index : ∀ name i, p.index.get? name = some i ↔ ∃ job, p.pipeline.jobs[i]? = some job ∧ job.name = name
  found : ∀ name job, p.job? name = some job ↔ job ∈ p.pipeline.jobs ∧ job.name = name
  absent : ∀ name, p.job? name = none ↔ name ∉ p.pipeline.jobs.map (·.name)
  /-- Looking a name up in the index is as good as a search through the jobs. -/
  searched : ∀ name, p.pipeline.job? name = p.job? name
  stage : ∀ job ∈ p.pipeline.jobs, job.stage ∈ p.pipeline.stages
  /-- What starts a child stands after the job that describes it, and in a later stage. -/
  trigger : ∀ before job after artifact target strategy, p.pipeline.jobs = before ++ job :: after →
    job.trigger = some (.child artifact target strategy) → ∃ earlier ∈ before, earlier.name = target ∧
      p.pipeline.stages.idxOf earlier.stage < p.pipeline.stages.idxOf job.stage

lemma IsInStep.isConsistent {p : IndexedPipeline} (h : IsInStep p) : IsConsistent p := by
  have hfound : ∀ name job, p.job? name = some job ↔ job ∈ p.pipeline.jobs ∧ job.name = name := by
    intro name job
    rw [h.job?_eq, Pipeline.job?, find?_name_eq_some h.fit.nodup_names]
  refine ⟨h.fit.nodup_names, h.index, hfound, ?_, fun name => (h.job?_eq name).symm,
    fun _ => h.fit.stage_mem, ?_⟩
  · intro name
    rw [← job?_isSome, ← h.job?_eq, Bool.not_eq_true, Option.isSome_eq_false_iff, Option.isNone_iff_eq_none]
  · intro before job after artifact target strategy heq htrigger
    have hpre : Pipeline.prerequisite? job = some target := by rw [Pipeline.prerequisite?, htrigger]
    exact (h.fit before job after heq).prerequisite target hpre

/-- Whatever a pipeline is asked for, it stays consistent and holds the accepted jobs in their order. It
answers as it would without an index: a job is turned down for one reason, the first that applies, and
then all is as before. -/
theorem pipeline_runs (kind : PipelineKind) (stages : List String) (requests : List Request) :
    let start := IndexedPipeline.ofStages kind stages
    let p := start.after requests
    IsConsistent p ∧
      p.pipeline = requests.foldl plainly (Pipeline.ofStages kind stages) ∧
      p.pipeline.kind = kind ∧ p.pipeline.stages = stages ∧ p.pipeline.jobs = start.accepted requests ∧
      (∀ job, (p.answer (.add job)).1 = (p.pipeline.add job).map fun _ => ()) ∧
      (∀ job e next, p.answer (.add job) = (.error e, next) ↔ IsRejected p.pipeline job e ∧ next = p) ∧
      ∀ job next, p.answer (.add job) = (.ok (), next) ↔ FitsAfter stages p.pipeline.jobs job ∧
        next = ⟨{ p.pipeline with jobs := p.pipeline.jobs ++ [job] },
          p.index.insert job.name p.pipeline.jobs.length⟩ := by
  intro start p
  have hstart : IsInStep start := isInStep_ofStages kind stages
  have hstep : IsInStep p := hstart.after requests
  obtain ⟨hplain, hkind, _, hjobs⟩ := hstart.after_eq requests
  have hstages : p.pipeline.stages = stages := (hstart.after_eq requests).2.2.1
  refine ⟨hstep.isConsistent, hplain, hkind, hstages, hjobs, ?_, ?_, ?_⟩
  · intro job
    rcases hstep.answer_cases (.add job) with ⟨_, _, h, _⟩ | ⟨_, e', h, hadd, _, hanswer⟩ |
      ⟨_, _, h, hadd, _, _, hanswer⟩
    · cases h
    · cases h
      rw [hanswer, hadd]
      rfl
    · cases h
      rw [hanswer, hadd]
      rfl
  · intro job e next
    rw [← add_eq_error_iff hstep.fit]
    rcases hstep.answer_cases (.add job) with ⟨_, _, h, _⟩ | ⟨_, e', h, hadd, _, hanswer⟩ |
      ⟨_, _, h, hadd, _, _, hanswer⟩
    · cases h
    · cases h
      simp [hadd, hanswer, eq_comm]
    · cases h
      simp [hadd, hanswer]
  · intro job next
    rcases hstep.answer_cases (.add job) with ⟨_, _, h, _⟩ | ⟨_, e', h, _, hrejected, hanswer⟩ |
      ⟨_, _, h, _, hfits, rfl, hanswer⟩
    · cases h
    · cases h
      have hnot := not_fitsAfter_of_isRejected hrejected
      rw [hstages] at hnot
      simp [hnot, hanswer]
    · cases h
      rw [hstages] at hfits
      simp [hfits, hanswer, eq_comm]

end CrossBuild.Proofs
