import CrossBuild.Proofs.Sequencing
import CrossBuild.Stages
import Mathlib.Data.List.Nodup

/-!
# Stages of a usable catalog

What the check of a catalog establishes, and what it means for finding the stage of a role: as no name
stands twice in a list, the name of a stage says which role it has and where it stands.
-/

namespace CrossBuild.Proofs
open Catalog

lemma firstRepeated?_eq_none {seen names : List String} :
    firstRepeated? seen names = none ↔ names.Nodup ∧ ∀ name ∈ names, name ∉ seen := by
  induction names generalizing seen with
  | nil => simp [firstRepeated?]
  | cons name names ih =>
    by_cases hseen : name ∈ seen
    · simp [firstRepeated?, hseen]
    · have hnew : (∀ other ∈ names, other ∉ name :: seen) ↔
          name ∉ names ∧ ∀ other ∈ names, other ∉ seen := by
        simp only [List.mem_cons, not_or, forall_and]
        refine and_congr_left fun _ => ?_
        constructor
        · exact fun h hname => h name hname rfl
        · rintro h _ hother rfl
          exact h hother
      rw [firstRepeated?, if_neg hseen, ih, hnew, List.nodup_cons, List.forall_mem_cons]
      constructor
      · rintro ⟨hdistinct, hnot, hall⟩
        exact ⟨⟨hnot, hdistinct⟩, hseen, hall⟩
      · rintro ⟨⟨hnot, hdistinct⟩, _, hall⟩
        exact ⟨hdistinct, hnot, hall⟩

lemma checkKind_eq_ok {c : Catalog} {kind : PipelineKind} :
    c.checkKind kind = .ok () ↔ c.names kind ≠ [] ∧ (c.names kind).Nodup := by
  have hnone : firstRepeated? [] (c.names kind) = none ↔ (c.names kind).Nodup := by
    simp [firstRepeated?_eq_none]
  unfold checkKind
  split
  · rename_i hempty
    simp [hempty]
  · rename_i names hsome
    have hne : c.names kind ≠ [] := hsome
    rw [← hnone]
    cases firstRepeated? [] (c.names kind) with
    | none => simp [hne]
    | some stage => simp

/-- A catalog is usable just if each kind of pipeline has stages, and none twice. -/
theorem validate_eq_ok {c : Catalog} :
    c.validate = .ok () ↔ ∀ kind, c.names kind ≠ [] ∧ (c.names kind).Nodup := by
  have hall : c.validate = .ok () ↔
      c.checkKind .host = .ok () ∧ c.checkKind .rcc = .ok () ∧ c.checkKind .hdl = .ok () := by
    have hunit : ∀ r : Except CatalogError Unit, (∃ u, r = .ok u) ↔ r = .ok () := fun r =>
      ⟨fun ⟨(), h⟩ => h, fun h => ⟨(), h⟩⟩
    simp [validate, PipelineKind.all, bind_eq_ok, hunit]
  simp only [hall, checkKind_eq_ok]
  constructor
  · rintro ⟨hhost, hrcc, hhdl⟩ kind
    cases kind
    · exact hhost
    · exact hrcc
    · exact hhdl
  · intro h
    exact ⟨h .host, h .rcc, h .hdl⟩

lemma idxOf_name_of_find? {stages : List Stage} (hdistinct : (stages.map (·.name)).Nodup)
    {role : StageRole} {stage : Stage} (h : stages.find? (·.role == role) = some stage) :
    (stages.map (·.name)).idxOf stage.name = stages.findIdx (·.role == role) := by
  induction stages with
  | nil => simp at h
  | cons first stages ih =>
    obtain ⟨hnot, hrest⟩ := List.nodup_cons.mp hdistinct
    rw [List.find?_cons] at h
    rw [List.map_cons, List.findIdx_cons]
    cases hfirst : first.role == role with
    | true =>
      obtain rfl : first = stage := by simpa [hfirst] using h
      simp
    | false =>
      rw [hfirst] at h
      -- the stage is in the rest, where the name of the first does not occur again
      have hne : first.name ≠ stage.name := fun hsame =>
        hnot (List.mem_map.mpr ⟨stage, List.mem_of_find?_eq_some h, hsame.symm⟩)
      rw [List.idxOf_cons_ne _ hne, ih hrest h, cond_false]

section StageFor

variable {c : Catalog} {kind : PipelineKind} {role : StageRole} {name : String}

lemma stageFor?_succeeds_iff :
    (∃ name, c.stageFor? kind role = some name) ↔ ∃ stage ∈ c.stages kind, stage.role = role := by
  simp [stageFor?, ← Option.isSome_iff_exists]

lemma exists_of_stageFor? (h : c.stageFor? kind role = some name) :
    ∃ stage ∈ c.stages kind, stage.name = name ∧ stage.role = role := by
  obtain ⟨stage, hfind, rfl⟩ := Option.map_eq_some_iff.mp h
  exact ⟨stage, List.mem_of_find?_eq_some hfind, rfl, by simpa using List.find?_some hfind⟩

lemma mem_names_of_stageFor? (h : c.stageFor? kind role = some name) : name ∈ c.names kind := by
  obtain ⟨stage, hstage, rfl, _⟩ := exists_of_stageFor? h
  exact List.mem_map_of_mem hstage

variable (hdistinct : (c.names kind).Nodup)

include hdistinct

/-- Stages of different roles have different names. -/
lemma role_of_stageFor? {other : StageRole} (h : c.stageFor? kind role = some name)
    (hother : c.stageFor? kind other = some name) : role = other := by
  obtain ⟨stage, hstage, hname, rfl⟩ := exists_of_stageFor? h
  obtain ⟨stage', hstage', rfl, rfl⟩ := exists_of_stageFor? hother
  rw [List.inj_on_of_nodup_map hdistinct hstage hstage' hname]

/-- The stage of a role stands where the first stage with this role does. -/
lemma idxOf_stageFor? (h : c.stageFor? kind role = some name) :
    (c.names kind).idxOf name = (c.stages kind).findIdx (·.role == role) := by
  obtain ⟨stage, hfind, rfl⟩ := Option.map_eq_some_iff.mp h
  exact idxOf_name_of_find? hdistinct hfind

end StageFor

end CrossBuild.Proofs
