import CrossBuild.Pipeline.Descriptor
import CrossBuild.Proofs.DirectiveMeaning

/-!
# Names of jobs

The name of a job is made of parts with colons between them. It says which parts these were if none of
them is empty or has a colon of its own; names that a directive holds are such parts. A descriptor takes
every job whose name is new and no word of the format, and no word of the format has a colon.
-/

namespace CrossBuild.Proofs
open Text

/-! ### Parts of names -/

structure IsPart (name : String) : Prop where
  nonempty : name ≠ ""
  colonless : ':' ∉ name.toList

instance (name : String) : Decidable (IsPart name) :=
  decidable_of_iff (name ≠ "" ∧ ':' ∉ name.toList) ⟨fun h => ⟨h.1, h.2⟩, fun h => ⟨h.1, h.2⟩⟩

lemma jobName_of_parts {parts : List String} (h : ∀ part ∈ parts, IsPart part) :
    jobName parts = join (String.singleton ':') parts := by
  have hall : parts.filter (fun part => !part.isEmpty) = parts := by
    rw [List.filter_eq_self]
    intro part hpart
    simpa using (h part hpart).nonempty
  rw [jobName, hall]
  rfl

/-- A name is made of one list of parts only. -/
theorem jobName_inj {parts parts' : List String} (hne : parts ≠ []) (hne' : parts' ≠ [])
    (h : ∀ part ∈ parts, IsPart part) (h' : ∀ part ∈ parts', IsPart part)
    (heq : jobName parts = jobName parts') : parts = parts' := by
  rw [jobName_of_parts h, jobName_of_parts h'] at heq
  exact join_inj hne hne' (fun part hpart => (h part hpart).colonless)
    (fun part hpart => (h' part hpart).colonless) heq

/-- A name of several parts has a colon in it. -/
lemma colon_mem_jobName {first second : String} {rest : List String}
    (h : ∀ part ∈ first :: second :: rest, IsPart part) :
    ':' ∈ (jobName (first :: second :: rest)).toList := by
  rw [jobName_of_parts h, join]
  · simp
  · simp

/-- The names of a directive come from between its colons. -/
lemma isPart_of_parse {rule : ColonlessRule} {text : String} {d : Directive}
    (h : Directive.parse rule text = .ok d) {name : String} (hname : d.contains name = true) :
    IsPart name := by
  obtain ⟨group, hgroup, side, hside, hmem⟩ := (contains_parse h name).mp hname
  have hwf := (parse_succeeds_iff rule text).mp ⟨d, h⟩ group hgroup
  refine ⟨?_, fun hcolon => ?_⟩
  · rintro rfl
    exact hwf.names side hside hmem
  · exact (mem_of_mem_splitAt hside (mem_of_mem_splitAt hmem hcolon).1).2 rfl

/-! ### Names in a descriptor -/

open Descriptor

lemma colon_notMem_reserved {key : String} (h : key ∈ reservedKeys) : ':' ∉ key.toList := by
  have hall : ∀ key ∈ reservedKeys, ':' ∉ key.toList := by decide
  exact hall key h

lemma addJob_eq_ok {entries entries' : List (String × Yaml.Value)} {job : Job} :
    addJob entries job = .ok entries' ↔ job.name ∉ reservedKeys ∧ job.name ∉ entries.map (·.1) ∧
      entries ++ [(job.name, ofJob job)] = entries' := by
  have hany : entries.any (·.1 == job.name) = true ↔ job.name ∈ entries.map (·.1) := by
    simp
  simp only [addJob, List.contains_iff_mem, hany]
  by_cases hreserved : job.name ∈ reservedKeys
  · simp [hreserved]
  · by_cases htaken : job.name ∈ entries.map (·.1)
    · simp only [hreserved, htaken, if_true, if_false, not_true, false_and, and_false, reduceCtorEq]
    · simp only [hreserved, htaken, if_false, not_false_iff, true_and, Except.ok.injEq]

lemma foldlM_addJob_eq_ok {jobs : List Job} {entries entries' : List (String × Yaml.Value)}
    (hentries : (entries.map (·.1)).Nodup) :
    jobs.foldlM addJob entries = .ok entries' ↔ (∀ job ∈ jobs, job.name ∉ reservedKeys) ∧
      (entries.map (·.1) ++ jobs.map (·.name)).Nodup ∧
      entries ++ jobs.map (fun job => (job.name, ofJob job)) = entries' := by
  induction jobs generalizing entries with
  | nil => simp [pure_eq_ok, hentries]
  | cons job jobs ih =>
    have hshift : ∀ later : List String, (entries ++ [(job.name, ofJob job)]).map (·.1) ++ later =
        entries.map (·.1) ++ job.name :: later := by simp
    have hnext : job.name ∉ entries.map (·.1) →
        ((entries ++ [(job.name, ofJob job)]).map (·.1)).Nodup := by
      intro hfree
      rw [List.map_append]
      exact List.nodup_append_comm.mp (List.nodup_cons.mpr ⟨hfree, hentries⟩)
    simp only [List.foldlM_cons, bind_eq_ok, addJob_eq_ok, List.forall_mem_cons, List.map_cons]
    constructor
    · rintro ⟨_, ⟨hreserved, hfree, rfl⟩, hrest⟩
      obtain ⟨hall, hdistinct, rfl⟩ := (ih (hnext hfree)).mp hrest
      rw [hshift] at hdistinct
      exact ⟨⟨hreserved, hall⟩, hdistinct, by simp⟩
    · rintro ⟨⟨hreserved, hall⟩, hdistinct, rfl⟩
      have hfree : job.name ∉ entries.map (·.1) := by
        intro hmem
        exact (List.nodup_append.mp hdistinct).2.2 _ hmem _ List.mem_cons_self rfl
      refine ⟨_, ⟨hreserved, hfree, rfl⟩, (ih (hnext hfree)).mpr ⟨hall, ?_, by simp⟩⟩
      rwa [hshift]

/-- A pipeline has a descriptor just if its jobs have different names that are no words of the format. -/
theorem ofPipeline_succeeds_iff {pipeline : Pipeline} :
    (∃ value, ofPipeline pipeline = .ok value) ↔
      (∀ job ∈ pipeline.jobs, job.name ∉ reservedKeys) ∧ (pipeline.jobs.map (·.name)).Nodup := by
  have hheader : ((header pipeline).map (·.1)).Nodup ∧
      ∀ key ∈ (header pipeline).map (·.1), key ∈ reservedKeys := by
    unfold header
    split
    · simp only [List.map_cons, List.map_nil]
      decide
    · simp only [List.map_cons, List.map_nil]
      decide
  simp only [ofPipeline, bind_eq_ok, pure_eq_ok, foldlM_addJob_eq_ok hheader.1]
  constructor
  · rintro ⟨_, _, ⟨hreserved, hdistinct, _⟩, _⟩
    exact ⟨hreserved, (List.nodup_append.mp hdistinct).2.1⟩
  · rintro ⟨hreserved, hdistinct⟩
    refine ⟨_, _, ⟨hreserved, List.nodup_append.mpr ⟨hheader.1, hdistinct, ?_⟩, rfl⟩, rfl⟩
    rintro key hkey _ hname rfl
    obtain ⟨job, hjob, rfl⟩ := List.mem_map.mp hname
    exact hreserved job hjob (hheader.2 _ hkey)

end CrossBuild.Proofs
