import CrossBuild.Proofs.JobNames
import CrossBuild.Proofs.PipelineRuns

/-!
# What a descriptor says

A descriptor leaves out what is empty, and of a job it shows the trigger or the script but not both. Still
nothing is lost. The parts of a pipeline can be looked up again by their keys: `readStages`,
`readVariables` and `readJobs` find in a descriptor what it was made of, provided that no job has a
script beside its trigger. Looking up by keys, they need the order of the entries for the order of the
jobs only.
-/

namespace CrossBuild.Proofs
open Descriptor
open Yaml (Value)

/-! ### Reading by keys -/

def readText : Value → String
  | .text s => s
  | _ => ""

def readTexts : Value → List String
  | .list items => items.map readText
  | _ => []

def readTable : Value → List (String × Value)
  | .table entries => entries
  | _ => []

def readTextAt (key : String) (entries : List (String × Value)) : String :=
  (entries.lookup key).elim "" readText

/-- The texts at a key, none if the key is absent. -/
def readTextsAt (key : String) (entries : List (String × Value)) : List String :=
  (entries.lookup key).elim [] readTexts

def readVariables (entries : List (String × Value)) : SortedMap String String :=
  .ofList (((entries.lookup "variables").elim [] readTable).map fun (key, value) => (key, readText value))

def readStrategy (entries : List (String × Value)) : Option Strategy :=
  if readTextAt "strategy" entries = Strategy.depend.name then some .depend else none

def readTrigger (entries : List (String × Value)) : Trigger :=
  match entries.lookup "include" with
  | some (.list (child :: _)) =>
    .child (readTextAt "artifact" (readTable child)) (readTextAt "job" (readTable child))
      (readStrategy entries)
  | _ => .downstream (readTextAt "project" entries) (readTextAt "branch" entries) (readStrategy entries)

/-- The job of an entry. -/
def readJob (entry : String × Value) : Job :=
  let fields := readTable entry.2
  { name := entry.1
    stage := readTextAt "stage" fields
    script := readTextsAt "script" fields
    afterScript := readTextsAt "after_script" fields
    vars := readVariables fields
    artifacts := (fields.lookup "artifacts").map fun value => readTextsAt "paths" (readTable value)
    tags := readTextsAt "tags" fields
    trigger := (fields.lookup "trigger").map fun value => readTrigger (readTable value) }

def readStages (entries : List (String × Value)) : List String := readTextsAt "stages" entries

/-- The jobs of all entries whose keys are not words of the format. -/
def readJobs (entries : List (String × Value)) : List Job :=
  (entries.filter fun entry => !reservedKeys.contains entry.1).map readJob

/-! ### What an entry has at a key -/

lemma lookup_single (key key' : String) (value : Value) :
    [(key', value)].lookup key = if key = key' then some value else none := by
  rw [List.lookup_cons, List.lookup_nil]
  by_cases h : key = key'
  · simp [h]
  · simp [h, beq_eq_false_iff_ne.mpr h]

/-- An empty list is left out, which reads as an empty list. -/
lemma lookup_ofTexts (key key' : String) (items : List String) :
    (ofTexts key' items).lookup key = if key = key' ∧ items ≠ [] then some (.texts items) else none := by
  cases items with
  | nil => simp [ofTexts]
  | cons item items => simp [ofTexts, lookup_single]

lemma lookup_variables (key : String) (vars : SortedMap String String) :
    (if vars.isEmpty then [] else [("variables", ofVariables vars)]).lookup key =
      if key = "variables" ∧ vars.isEmpty = false then some (ofVariables vars) else none := by
  cases h : vars.isEmpty with
  | true => simp
  | false => simp [lookup_single]

lemma lookup_ofAction (key : String) (job : Job) :
    [ofAction job].lookup key = match job.trigger with
      | some trigger => if key = "trigger" then some (ofTrigger trigger) else none
      | none => if key = "script" then some (.texts job.script) else none := by
  unfold ofAction
  cases job.trigger with
  | none => exact lookup_single _ _ _
  | some trigger => exact lookup_single _ _ _

/-- What the entry of a job has at a key. -/
lemma lookup_ofJob (key : String) (job : Job) :
    (readTable (ofJob job)).lookup key =
      (if key = "stage" then some (Value.text job.stage) else none).or
      ((if key = "variables" ∧ job.vars.isEmpty = false then some (ofVariables job.vars) else none).or
      (([ofAction job].lookup key).or
      ((if key = "after_script" ∧ job.afterScript ≠ [] then some (Value.texts job.afterScript) else none).or
      ((if key = "artifacts" then job.artifacts.map fun paths => Value.table [("paths", .texts paths)]
        else none).or
      (if key = "tags" ∧ job.tags ≠ [] then some (Value.texts job.tags) else none))))) := by
  have hparts : readTable (ofJob job) = [("stage", .text job.stage)] ++
      ((if job.vars.isEmpty then [] else [("variables", ofVariables job.vars)]) ++
      ([ofAction job] ++ (ofTexts "after_script" job.afterScript ++
      ((job.artifacts.map fun paths => ("artifacts", Value.table [("paths", .texts paths)])).toList ++
      ofTexts "tags" job.tags)))) := by
    unfold ofJob readTable
    cases job.artifacts with
    | none => simp
    | some paths => simp
  rw [hparts]
  simp only [List.lookup_append, lookup_single, lookup_variables, lookup_ofTexts]
  cases job.artifacts with
  | none => simp
  | some paths => simp only [Option.map_some, Option.toList_some, lookup_single]

/-! ### Reading what was written -/

lemma readTexts_texts (items : List String) : readTexts (.texts items) = items := by
  have hread : readText ∘ Value.text = id := rfl
  rw [Value.texts, readTexts, List.map_map, hread, List.map_id]

lemma readTextsAt_of_lookup {key : String} {entries : List (String × Value)} {items : List String}
    (h : entries.lookup key = if items ≠ [] then some (.texts items) else none) :
    readTextsAt key entries = items := by
  rw [readTextsAt, h]
  by_cases hne : items = []
  · simp [hne]
  · simp [hne, readTexts_texts]

lemma readVariables_of_lookup {entries : List (String × Value)} {vars : SortedMap String String}
    (h : entries.lookup "variables" = if vars.isEmpty = false then some (ofVariables vars) else none) :
    readVariables entries = vars := by
  have hread : (readTable (ofVariables vars)).map (fun (key, value) => (key, readText value)) =
      vars.entries := by
    rw [ofVariables, readTable, List.map_map]
    exact List.map_id vars.entries
  have hentries : ((entries.lookup "variables").elim [] readTable).map
      (fun (key, value) => (key, readText value)) = vars.entries := by
    rw [h]
    by_cases hempty : vars.isEmpty = false
    · rw [if_pos hempty]
      exact hread
    · have hnil : vars.entries = [] := by simpa [SortedMap.isEmpty] using hempty
      rw [if_neg hempty, hnil]
      rfl
  rw [readVariables, hentries, ofList_entries]

lemma readStrategy_append (entries : List (String × Value)) (h : entries.lookup "strategy" = none)
    (strategy : Option Strategy) : readStrategy (entries ++ ofStrategy strategy) = strategy := by
  rw [readStrategy, readTextAt, List.lookup_append, h, Option.none_or]
  rcases strategy with _ | ⟨_ | _⟩
  · rfl
  · rfl

lemma readTrigger_ofTrigger (trigger : Trigger) : readTrigger (readTable (ofTrigger trigger)) = trigger := by
  cases trigger with
  | child artifact job strategy =>
    have hstrategy := readStrategy_append [("include",
      .list [.table [("artifact", .text artifact), ("job", .text job)]])] rfl strategy
    exact congrArg (Trigger.child artifact job) hstrategy
  | downstream project branch strategy =>
    have hstrategy := readStrategy_append [("project", .text project), ("branch", .text branch)] rfl
      strategy
    have hinclude : (readTable (ofTrigger (.downstream project branch strategy))).lookup "include" =
        none := by
      cases strategy with
      | none => rfl
      | some _ => rfl
    rw [readTrigger, hinclude]
    exact congrArg (Trigger.downstream project branch) hstrategy

/-- Each field of a job can be read from its entry, its script as far as it is shown. -/
lemma readJob_ofJob {job : Job} (h : job.isTrigger → job.script = []) :
    readJob (job.name, ofJob job) = job := by
  have haction : ∀ key, key ≠ "trigger" → key ≠ "script" → [ofAction job].lookup key = none := by
    intro key htrigger hscript
    rw [lookup_ofAction]
    cases job.trigger with
    | none => exact if_neg hscript
    | some trigger => exact if_neg htrigger
  have hstage : readTextAt "stage" (readTable (ofJob job)) = job.stage := by
    simp [readTextAt, readText, lookup_ofJob]
  have hscript : readTextsAt "script" (readTable (ofJob job)) = job.script := by
    cases htrigger : job.trigger with
    | none => simp [readTextsAt, lookup_ofJob, lookup_ofAction, htrigger, readTexts_texts]
    | some trigger =>
      have hempty : job.script = [] := h (by simp [Job.isTrigger, htrigger])
      simp [readTextsAt, lookup_ofJob, lookup_ofAction, htrigger, hempty]
  have hafter : readTextsAt "after_script" (readTable (ofJob job)) = job.afterScript :=
    readTextsAt_of_lookup (by simp [lookup_ofJob, haction])
  have hvars : readVariables (readTable (ofJob job)) = job.vars :=
    readVariables_of_lookup (by simp [lookup_ofJob, haction])
  have hartifacts : (((readTable (ofJob job)).lookup "artifacts").map fun value =>
      readTextsAt "paths" (readTable value)) = job.artifacts := by
    cases hartifacts : job.artifacts with
    | none => simp [lookup_ofJob, haction, hartifacts]
    | some paths =>
      have hpaths : readTextsAt "paths" (readTable (.table [("paths", .texts paths)])) = paths :=
        readTexts_texts paths
      simp [lookup_ofJob, haction, hartifacts, hpaths]
  have htags : readTextsAt "tags" (readTable (ofJob job)) = job.tags :=
    readTextsAt_of_lookup (by simp [lookup_ofJob, haction])
  have htrigger : (((readTable (ofJob job)).lookup "trigger").map fun value =>
      readTrigger (readTable value)) = job.trigger := by
    cases htrigger : job.trigger with
    | none => simp [lookup_ofJob, lookup_ofAction, htrigger]
    | some trigger => simp [lookup_ofJob, lookup_ofAction, htrigger, readTrigger_ofTrigger]
  simp only [readJob, hstage, hscript, hafter, hvars, hartifacts, htags, htrigger]

/-! ### Descriptors of pipelines -/

/-- The entries of a descriptor if no job takes a word of the format as its name. -/
def descriptorEntries (p : Pipeline) : List (String × Value) :=
  header p ++ p.jobs.map fun job => (job.name, ofJob job)

lemma header_keys (p : Pipeline) :
    (header p).map (·.1) = "stages" :: if p.vars.isEmpty then [] else ["variables"] := by
  unfold header
  cases p.vars.isEmpty with
  | true => rfl
  | false => rfl

lemma reserved_of_mem_header {p : Pipeline} {key : String} (h : key ∈ (header p).map (·.1)) :
    key ∈ reservedKeys := by
  rw [header_keys] at h
  cases hempty : p.vars.isEmpty with
  | true =>
    rw [hempty] at h
    obtain rfl : key = "stages" := by simpa using h
    decide
  | false =>
    rw [hempty] at h
    obtain rfl | rfl : key = "stages" ∨ key = "variables" := by simpa using h
    · decide
    · decide

/-- The first job with a word of the format as its name stops the run, and nothing else does. -/
lemma foldlM_addJob_eq {jobs : List Job} (entries : List (String × Value))
    (hnames : (jobs.map (·.name)).Nodup)
    (hfree : ∀ job ∈ jobs, job.name ∈ entries.map (·.1) → job.name ∈ reservedKeys) :
    jobs.foldlM addJob entries =
      match jobs.find? fun job => reservedKeys.contains job.name with
      | some job => .error (.reservedName job.name)
      | none => .ok (entries ++ jobs.map fun job => (job.name, ofJob job)) := by
  induction jobs generalizing entries with
  | nil => simp [pure, Except.pure]
  | cons job jobs ih =>
    obtain ⟨hname, hnames⟩ := List.nodup_cons.mp hnames
    rw [List.foldlM_cons, List.find?_cons]
    cases hreserved : reservedKeys.contains job.name with
    | true =>
      have hstop : addJob entries job = .error (.reservedName job.name) := by
        rw [addJob, if_pos hreserved]
      rw [hstop]
      rfl
    | false =>
      have hnot : job.name ∉ reservedKeys := by simpa using hreserved
      have hnew : job.name ∉ entries.map (·.1) := fun hmem => hnot (hfree job List.mem_cons_self hmem)
      have hadd : addJob entries job = .ok (entries ++ [(job.name, ofJob job)]) :=
        addJob_eq_ok.mpr ⟨hnot, hnew, rfl⟩
      have hnext : ∀ other ∈ jobs, other.name ∈ (entries ++ [(job.name, ofJob job)]).map (·.1) →
          other.name ∈ reservedKeys := by
        intro other hother hmem
        rw [List.map_append, List.mem_append] at hmem
        rcases hmem with hmem | hmem
        · exact hfree other (List.mem_cons_of_mem _ hother) hmem
        · have hsame : other.name = job.name := by simpa using hmem
          exact (hname (List.mem_map.mpr ⟨other, hother, hsame⟩)).elim
      rw [hadd]
      refine (ih _ hnames hnext).trans ?_
      rw [List.append_assoc]
      rfl

lemma ofPipeline_eq {p : Pipeline} (h : (p.jobs.map (·.name)).Nodup) :
    ofPipeline p = match p.jobs.find? fun job => reservedKeys.contains job.name with
      | some job => .error (.reservedName job.name)
      | none => .ok (.table (descriptorEntries p)) := by
  have hrun := foldlM_addJob_eq (header p) h fun _ _ hmem => reserved_of_mem_header hmem
  rw [ofPipeline, hrun]
  cases p.jobs.find? fun job => reservedKeys.contains job.name with
  | none => rfl
  | some job => rfl

lemma ofPipeline_eq_ok {p : Pipeline} (h : (p.jobs.map (·.name)).Nodup) {value : Value}
    (hvalue : ofPipeline p = .ok value) :
    (∀ job ∈ p.jobs, job.name ∉ reservedKeys) ∧ value = .table (descriptorEntries p) := by
  refine ⟨(ofPipeline_succeeds_iff.mp ⟨value, hvalue⟩).1, ?_⟩
  rw [ofPipeline_eq h] at hvalue
  split at hvalue
  · cases hvalue
  · exact (Except.ok.inj hvalue).symm

lemma ofPipeline_eq_error {p : Pipeline} (h : (p.jobs.map (·.name)).Nodup) {e : DescriptorError} :
    ofPipeline p = .error e ↔ ∃ job,
      p.jobs.find? (fun job => reservedKeys.contains job.name) = some job ∧ e = .reservedName job.name := by
  rw [ofPipeline_eq h]
  cases p.jobs.find? fun job => reservedKeys.contains job.name with
  | none => simp
  | some job => simp [eq_comm]

lemma descriptorEntries_keys (p : Pipeline) : (descriptorEntries p).map (·.1) =
    "stages" :: (if p.vars.isEmpty then [] else ["variables"]) ++ p.jobs.map (·.name) := by
  rw [descriptorEntries, List.map_append, header_keys, List.map_map]
  rfl

/-- The parts of a pipeline that its descriptor shows in full. -/
structure IsShown (p : Pipeline) : Prop where
  names : ∀ job ∈ p.jobs, job.name ∉ reservedKeys
  scripts : ∀ job ∈ p.jobs, job.isTrigger → job.script = []

namespace IsShown

lemma readStages_eq (p : Pipeline) : readStages (descriptorEntries p) = p.stages := by
  have hhead : (descriptorEntries p).lookup "stages" = some (.texts p.stages) := rfl
  rw [readStages, readTextsAt, hhead]
  exact readTexts_texts p.stages

variable {p : Pipeline} (h : IsShown p)

include h

lemma jobEntries_lookup {key : String} (hkey : key ∈ reservedKeys) :
    (p.jobs.map fun job => (job.name, ofJob job)).lookup key = none := by
  rw [List.lookup_eq_none_iff]
  intro entry hentry
  obtain ⟨job, hjob, rfl⟩ := List.mem_map.mp hentry
  have hne : key ≠ job.name := fun heq => h.names job hjob (heq ▸ hkey)
  simpa using hne

lemma readVariables_eq : readVariables (descriptorEntries p) = p.vars := by
  apply readVariables_of_lookup
  have hcons : (header p).lookup "variables" =
      (if p.vars.isEmpty then [] else [("variables", ofVariables p.vars)]).lookup "variables" := rfl
  rw [descriptorEntries, List.lookup_append, h.jobEntries_lookup (by decide), Option.or_none, hcons,
    lookup_variables]
  simp

lemma readJobs_eq : readJobs (descriptorEntries p) = p.jobs := by
  have hheader : (header p).filter (fun entry => !reservedKeys.contains entry.1) = [] := by
    rw [List.filter_eq_nil_iff]
    intro entry hentry
    simpa using reserved_of_mem_header (List.mem_map_of_mem (f := Prod.fst) hentry)
  have hjobs : (p.jobs.map fun job => (job.name, ofJob job)).filter
      (fun entry => !reservedKeys.contains entry.1) = p.jobs.map fun job => (job.name, ofJob job) := by
    rw [List.filter_eq_self]
    intro entry hentry
    obtain ⟨job, hjob, rfl⟩ := List.mem_map.mp hentry
    simpa using h.names job hjob
  have hread : ∀ job ∈ p.jobs, readJob (job.name, ofJob job) = job :=
    fun job hjob => readJob_ofJob (h.scripts job hjob)
  rw [readJobs, descriptorEntries, List.filter_append, hheader, hjobs, List.nil_append, List.map_map]
  exact (List.map_congr_left hread).trans (List.map_id' p.jobs)

end IsShown

/-! ### Descriptors in another order -/

lemma lookup_eq_find? (key : String) (entries : List (String × Value)) :
    entries.lookup key = (entries.find? (·.1 == key)).map (·.2) := by
  induction entries with
  | nil => rfl
  | cons entry entries ih =>
    rw [List.lookup_cons, List.find?_cons, ih, BEq.comm]
    cases entry.1 == key with
    | true => rfl
    | false => rfl

/-- Where keys differ, their order does not matter for what is found. -/
lemma lookup_of_perm {entries entries' : List (String × Value)} (h : entries.Perm entries')
    (hkeys : (entries.map (·.1)).Nodup) (key : String) : entries.lookup key = entries'.lookup key := by
  have hkeys' : (entries'.map (·.1)).Nodup := (h.map (·.1)).nodup_iff.mp hkeys
  have hfind : entries.find? (·.1 == key) = entries'.find? (·.1 == key) := by
    apply Option.ext
    intro entry
    rw [find?_name_eq_some hkeys, find?_name_eq_some hkeys', h.mem_iff]
  rw [lookup_eq_find?, lookup_eq_find?, hfind]

lemma nodup_descriptorEntries {p : Pipeline} (h : IsShown p) (hnames : (p.jobs.map (·.name)).Nodup) :
    ((descriptorEntries p).map (·.1)).Nodup := by
  have hheader : ((header p).map (·.1)).Nodup := by
    rw [header_keys]
    cases p.vars.isEmpty with
    | true => decide
    | false => decide
  rw [descriptorEntries, List.map_append, List.map_map]
  refine List.nodup_append.mpr ⟨hheader, hnames, ?_⟩
  rintro key hkey _ hname rfl
  obtain ⟨job, hjob, rfl⟩ := List.mem_map.mp hname
  exact h.names job hjob (reserved_of_mem_header hkey)

lemma IsShown.eq_of_perm {p p' : Pipeline} (h : IsShown p) (h' : IsShown p')
    (hnames : (p.jobs.map (·.name)).Nodup)
    (hperm : (descriptorEntries p).Perm (descriptorEntries p')) :
    p.stages = p'.stages ∧ p.vars = p'.vars ∧ p.jobs.Perm p'.jobs := by
  have hlookup := lookup_of_perm hperm (nodup_descriptorEntries h hnames)
  refine ⟨?_, ?_, ?_⟩
  · rw [← IsShown.readStages_eq p, ← IsShown.readStages_eq p', readStages, readTextsAt, hlookup]
    rfl
  · rw [← h.readVariables_eq, ← h'.readVariables_eq, readVariables, hlookup]
    rfl
  · rw [← h.readJobs_eq, ← h'.readJobs_eq]
    exact (hperm.filter _).map _

/-! ### Pipelines that were asked for jobs -/

lemma nodup_names_of_requests (kind : PipelineKind) (stages : List String) (requests : List Request) :
    ((requests.foldl plainly (Pipeline.ofStages kind stages)).jobs.map (·.name)).Nodup := by
  have hstart := isInStep_ofStages kind stages
  have hfit := (hstart.after requests).fit
  rw [(hstart.after_eq requests).1] at hfit
  exact hfit.nodup_names

/-- A pipeline has a descriptor unless a job takes a word of the format as its name, and the first such
job is then what is reported. The descriptor has the stages, the variables if there are any, and the jobs
in order. It says everything: pipelines with one descriptor are the same in stages, variables and jobs,
if no job has a script beside its trigger. If the entries agree up to their order, so do the jobs. -/
theorem descriptor_determines_pipeline (kind kind' : PipelineKind) (stages stages' : List String)
    (requests requests' : List Request) :
    let p := requests.foldl plainly (Pipeline.ofStages kind stages)
    let p' := requests'.foldl plainly (Pipeline.ofStages kind' stages')
    ((∃ value, ofPipeline p = .ok value) ↔ ∀ job ∈ p.jobs, job.name ∉ reservedKeys) ∧
      (∀ e, ofPipeline p = .error e ↔ ∃ job,
        p.jobs.find? (fun job => reservedKeys.contains job.name) = some job ∧ e = .reservedName job.name) ∧
      (∀ value, ofPipeline p = .ok value → ∃ entries, value = .table entries ∧
        entries.map (·.1) = "stages" :: (if p.vars.isEmpty then [] else ["variables"]) ++
          p.jobs.map (·.name)) ∧
      ((∀ job ∈ p.jobs, job.isTrigger → job.script = []) →
        (∀ job ∈ p'.jobs, job.isTrigger → job.script = []) →
        (∀ value, ofPipeline p = .ok value → ofPipeline p' = .ok value →
          p.stages = p'.stages ∧ p.vars = p'.vars ∧ p.jobs = p'.jobs) ∧
        ∀ entries entries', ofPipeline p = .ok (.table entries) → ofPipeline p' = .ok (.table entries') →
          entries.Perm entries' → p.stages = p'.stages ∧ p.vars = p'.vars ∧ p.jobs.Perm p'.jobs) := by
  intro p p'
  have hnames : (p.jobs.map (·.name)).Nodup := nodup_names_of_requests kind stages requests
  have hnames' : (p'.jobs.map (·.name)).Nodup := nodup_names_of_requests kind' stages' requests'
  refine ⟨?_, fun e => ofPipeline_eq_error hnames, ?_, fun hscripts hscripts' => ⟨?_, ?_⟩⟩
  · rw [ofPipeline_succeeds_iff]
    exact and_iff_left hnames
  · intro value hvalue
    exact ⟨descriptorEntries p, (ofPipeline_eq_ok hnames hvalue).2, descriptorEntries_keys p⟩
  · intro value hvalue hvalue'
    obtain ⟨hfree, rfl⟩ := ofPipeline_eq_ok hnames hvalue
    obtain ⟨hfree', heq⟩ := ofPipeline_eq_ok hnames' hvalue'
    have hentries : descriptorEntries p = descriptorEntries p' := by simpa using heq
    have hshown : IsShown p := ⟨hfree, hscripts⟩
    have hshown' : IsShown p' := ⟨hfree', hscripts'⟩
    obtain ⟨hstages, hvars, _⟩ := hshown.eq_of_perm hshown' hnames (.of_eq hentries)
    refine ⟨hstages, hvars, ?_⟩
    rw [← hshown.readJobs_eq, ← hshown'.readJobs_eq, hentries]
  · intro entries entries' hvalue hvalue' hperm
    obtain ⟨hfree, heq⟩ := ofPipeline_eq_ok hnames hvalue
    obtain ⟨hfree', heq'⟩ := ofPipeline_eq_ok hnames' hvalue'
    cases heq
    cases heq'
    exact IsShown.eq_of_perm ⟨hfree, hscripts⟩ ⟨hfree', hscripts'⟩ hnames hperm

section Asked

def sampleChild : Job :=
  { Job.ofScript "plan:centos7" "plan" ["make plan"] with artifacts := some [] }

def sampleStart : Job := .ofTrigger "run:centos7" "run" (.child "plan.yml" "plan:centos7" (some .depend))

def sampleDownstream : Job :=
  { Job.ofTrigger "tell:zed" "run" (.downstream "bones/zed" "main" none) with tags := ["ci"] }

def samplePipeline (requests : List Request) : Pipeline :=
  requests.foldl plainly (.ofStages .host ["plan", "run"])

/-- A variable set twice and a job that is turned down leave no trace; jobs in another order do. -/
theorem descriptor_determines_pipeline_asked :
    let p := samplePipeline [.setVariable "A" "1", .add sampleChild, .add sampleStart, .add sampleChild,
      .setVariable "A" "2", .add sampleDownstream]
    let p' := samplePipeline [.add sampleChild, .add sampleStart, .add sampleDownstream,
      .setVariable "A" "2"]
    let q := samplePipeline [.add sampleDownstream, .add sampleChild, .add sampleStart,
      .setVariable "A" "2"]
    (∃ value, ofPipeline p = .ok value ∧ ofPipeline p' = .ok value) ∧ p.vars = p'.vars ∧
      p.jobs = p'.jobs ∧ p.jobs.length = 3 ∧ p.jobs ≠ q.jobs ∧ p.jobs.Perm q.jobs := by
  intro p p' q
  have hall := descriptor_determines_pipeline .host .host ["plan", "run"] ["plan", "run"]
  have hp : ∀ job ∈ p.jobs, job.isTrigger → job.script = [] := by decide
  have hp' : ∀ job ∈ p'.jobs, job.isTrigger → job.script = [] := by decide
  have hq : ∀ job ∈ q.jobs, job.isTrigger → job.script = [] := by decide
  have hsame := ((hall _ _).2.2.2 hp hp').1 (.table (descriptorEntries p)) rfl rfl
  have hperm : (descriptorEntries p).Perm (descriptorEntries q) := by
    have hjobs : p.jobs.Perm q.jobs := by decide
    exact (hjobs.map _).append_left (header p)
  have hmoved := ((hall _ _).2.2.2 hp hq).2 (descriptorEntries p) (descriptorEntries q) rfl rfl hperm
  exact ⟨⟨_, rfl, rfl⟩, hsame.2.1, hsame.2.2, rfl, by decide, hmoved.2.2⟩

end Asked

end CrossBuild.Proofs
