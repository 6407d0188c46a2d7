import CrossBuild.Proofs.CatalogStages
import CrossBuild.Proofs.FanOut
import CrossBuild.Proofs.JobNames

/-!
# Jobs named after a role and parts

The jobs of every generated pipeline are named in one way: the stage of a role, then parts such as a
host and a target. With stages of different and proper names the name gives the role and the parts back,
so jobs have different names if they differ in either.
-/

namespace CrossBuild.Proofs

/-- The role and the parts that the name of a job is made from. -/
abbrev JobKey := StageRole × List String

structure HasKey (c : Catalog) (kind : PipelineKind) (key : JobKey) (job : Job) : Prop where
  stage : c.stageFor? kind key.1 = some job.stage
  name : job.name = jobName (job.stage :: key.2)

section Keyed

variable {c : Catalog} {kind : PipelineKind} (hdistinct : (c.names kind).Nodup)
  (hstages : ∀ stage ∈ c.stages kind, IsPart stage.name)

include hstages

lemma HasKey.isPart {key : JobKey} {job : Job} (h : HasKey c kind key job)
    (hparts : ∀ part ∈ key.2, IsPart part) : ∀ part ∈ job.stage :: key.2, IsPart part := by
  obtain ⟨stage, hmem, hname, _⟩ := exists_of_stageFor? h.stage
  rw [List.forall_mem_cons, ← hname]
  exact ⟨hstages stage hmem, hparts⟩

lemma HasKey.notReserved {key : JobKey} {job : Job} (h : HasKey c kind key job)
    (hparts : ∀ part ∈ key.2, IsPart part) (hne : key.2 ≠ []) : job.name ∉ Descriptor.reservedKeys := by
  obtain ⟨first, rest, heq⟩ := List.exists_cons_of_ne_nil hne
  have hall := h.isPart hstages hparts
  rw [heq] at hall
  have hcolon : ':' ∈ job.name.toList := by
    rw [h.name, heq]
    exact colon_mem_jobName hall
  intro hreserved
  exact colon_notMem_reserved hreserved hcolon

include hdistinct

/-- One name has one stage and one list of further parts, and one stage has one role. -/
lemma HasKey.inj {key key' : JobKey} {job job' : Job} (h : HasKey c kind key job)
    (h' : HasKey c kind key' job') (hparts : ∀ part ∈ key.2, IsPart part)
    (hparts' : ∀ part ∈ key'.2, IsPart part) (hname : job.name = job'.name) : key = key' := by
  rw [h.name, h'.name] at hname
  have hall := jobName_inj (List.cons_ne_nil _ _) (List.cons_ne_nil _ _) (h.isPart hstages hparts)
    (h'.isPart hstages hparts') hname
  obtain ⟨hstage, htail⟩ := List.cons.inj hall
  have hrole : key.1 = key'.1 := role_of_stageFor? hdistinct h.stage (hstage ▸ h'.stage)
  exact Prod.ext hrole htail

lemma nodup_names_of_keys {keys : List JobKey} {jobs : List Job}
    (h : List.Forall₂ (HasKey c kind) keys jobs) (hkeys : keys.Nodup)
    (hparts : ∀ key ∈ keys, ∀ part ∈ key.2, IsPart part) : (jobs.map (·.name)).Nodup := by
  induction h with
  | nil => exact List.nodup_nil
  | cons hfirst hrest ih =>
    obtain ⟨hnew, hkeys⟩ := List.nodup_cons.mp hkeys
    obtain ⟨hfirstParts, hparts⟩ := List.forall_mem_cons.mp hparts
    rw [List.map_cons, List.nodup_cons]
    refine ⟨?_, ih hkeys hparts⟩
    intro hmem
    obtain ⟨other, hother, hname⟩ := List.mem_map.mp hmem
    obtain ⟨key, hkey, hhas⟩ := exists_of_forall₂ hrest.flip hother
    have hsame := hfirst.inj hdistinct hstages hhas hfirstParts (hparts key hkey) hname.symm
    exact hnew (hsame ▸ hkey)

end Keyed

end CrossBuild.Proofs
