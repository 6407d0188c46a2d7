import CrossBuild.Proofs.BundleChoice
import CrossBuild.Proofs.SurveyedTree

/-!
# What the text of a key tells

A key is written with slashes between its parts, which have none of their own, so its text tells the
pipeline, the job and the second part. That the job failed is written onto the stage with nothing in
between: the text of a failed job's key is also that of a successful job's, in a stage that is called
after the first one with the mark added. Jobs that a plan makes have the stage in their names, with a
colon or nothing after it, so their keys tell them apart.
-/

namespace CrossBuild.Proofs
open Plan

/-! ### Parts of a key -/

/-- A part has no fault just if it could be the name of a file. -/
lemma fault?_eq_none {part : String} : BundleKey.fault? part = none ↔ IsFileName part := by
  unfold BundleKey.fault?
  constructor
  · intro h
    split at h
    · cases h
    · rename_i hempty
      split at h
      · cases h
      · rename_i hslash
        split at h
        · cases h
        · rename_i hrelative
          simp only [Bool.or_eq_true, beq_iff_eq, not_or] at hrelative
          exact ⟨by simpa using hempty, by simpa using hslash, hrelative.1, hrelative.2⟩
  · rintro ⟨hempty, hslash, hhere, hup⟩
    simp [hempty, hslash, hhere, hup]

lemma ofParts_eq_ok {id stage job : String} {k : BundleKey} :
    BundleKey.ofParts id stage job = .ok k ↔
      (IsFileName id ∧ IsFileName stage ∧ IsFileName job) ∧ (⟨id, stage, job, false⟩ : BundleKey) = k := by
  have hnone : [id, stage, job].findSome? (fun part => (BundleKey.fault? part).map (part, ·)) = none ↔
      IsFileName id ∧ IsFileName stage ∧ IsFileName job := by
    simp [fault?_eq_none]
  unfold BundleKey.ofParts
  rw [← hnone]
  split
  · rename_i bad hbad
    simp [hbad]
  · rename_i hgood
    simp [hgood]

lemma isAccepted_iff {k : BundleKey} :
    IsAccepted k ↔ IsFileName k.pipelineId ∧ IsFileName k.stage ∧ IsFileName k.job := by
  rw [IsAccepted, ofParts_eq_ok, and_iff_left rfl]

/-! ### Keys of one text -/

/-- The key of a failed job that reads like that of a successful job in another stage. -/
structure IsTakenFor (k k' : BundleKey) : Prop where
  pipelineId : k.pipelineId = k'.pipelineId
  job : k.job = k'.job
  failed : k.failed = true
  successful : k'.failed = false
  stage : k'.stage = k.stage ++ BundleKey.failedSuffix

lemma IsTakenFor.text {k k' : BundleKey} (h : IsTakenFor k k') : k.text = k'.text := by
  simp [BundleKey.text, h.pipelineId, h.job, h.failed, h.successful, h.stage, String.append_assoc]

/-- The keys agree in all that their texts tell. -/
structure ReadsAlike (k k' : BundleKey) : Prop where
  pipelineId : k.pipelineId = k'.pipelineId
  stagePart : stagePart k = stagePart k'
  job : k.job = k'.job

lemma ReadsAlike.symm {k k' : BundleKey} (h : ReadsAlike k k') : ReadsAlike k' k :=
  ⟨h.pipelineId.symm, h.stagePart.symm, h.job.symm⟩

lemma readsAlike_of_text {k k' : BundleKey} (hk : HasPieces k) (h : k.text = k'.text) : ReadsAlike k k' := by
  have hchars := congrArg String.toList h
  rw [toList_text, toList_text] at hchars
  obtain ⟨hid, hstage, hjob⟩ := three_pieces_inj hk.pipelineId hk.stagePart hk.jobPart hchars
  exact ⟨String.toList_inj.mp hid, hstage, String.toList_inj.mp (List.append_cancel_right hjob)⟩

/-- What both jobs or neither wrote onto the stage can be taken away. -/
lemma ReadsAlike.eq {k k' : BundleKey} (h : ReadsAlike k k') (hfailed : k.failed = k'.failed) : k = k' := by
  have hstage := h.stagePart
  rw [Proofs.stagePart, Proofs.stagePart, hfailed] at hstage
  have hsame := String.toList_inj.mp (List.append_cancel_right hstage)
  obtain ⟨hid, _, hjob⟩ := h
  cases k
  cases k'
  simp_all

lemma ReadsAlike.isTakenFor {k k' : BundleKey} (h : ReadsAlike k k') (hfailed : k.failed = true)
    (hsuccessful : k'.failed = false) : IsTakenFor k k' := by
  refine ⟨h.pipelineId, h.job, hfailed, hsuccessful, String.toList_inj.mp ?_⟩
  simpa [Proofs.stagePart, hfailed, hsuccessful] using h.stagePart.symm

lemma eq_or_isTakenFor {k k' : BundleKey} (hk : HasPieces k) (h : k.text = k'.text) :
    k = k' ∨ IsTakenFor k k' ∨ IsTakenFor k' k := by
  have halike := readsAlike_of_text hk h
  cases hfailed : k.failed with
  | true =>
    cases hfailed' : k'.failed with
    | true => exact .inl (halike.eq (hfailed.trans hfailed'.symm))
    | false => exact .inr (.inl (halike.isTakenFor hfailed hfailed'))
  | false =>
    cases hfailed' : k'.failed with
    | true => exact .inr (.inr (halike.symm.isTakenFor hfailed' hfailed))
    | false => exact .inl (halike.eq (hfailed.trans hfailed'.symm))

/-- A key under which a bundle can be stored has the text of another one just if they are equal or the one
is taken for the other. -/
theorem text_eq_iff {k k' : BundleKey} (hk : IsAccepted k) :
    k.text = k'.text ↔ k = k' ∨ IsTakenFor k k' ∨ IsTakenFor k' k := by
  constructor
  · exact eq_or_isTakenFor hk.hasPieces
  · rintro (rfl | h | h)
    · rfl
    · exact h.text
    · exact h.text.symm

/-- The failed job of a stage and the job of the same name in the stage that is called like its mark. -/
theorem text_eq_iff_marked_stage :
    IsAccepted ⟨"1", "build", "centos7", true⟩ ∧ IsAccepted ⟨"1", "build-failed", "centos7", false⟩ ∧
      (⟨"1", "build", "centos7", true⟩ : BundleKey) ≠ ⟨"1", "build-failed", "centos7", false⟩ ∧
      (⟨"1", "build", "centos7", true⟩ : BundleKey).text =
        (⟨"1", "build-failed", "centos7", false⟩ : BundleKey).text := by
  have hk : IsAccepted ⟨"1", "build", "centos7", true⟩ := by decide
  exact ⟨hk, by decide, by decide, (text_eq_iff hk).mpr (.inr (.inl ⟨rfl, rfl, rfl, rfl, rfl⟩))⟩

/-! ### Keys of jobs that are named after their stage -/

/-- In the name of a job nothing but a colon follows its stage. -/
lemma toList_jobName {stage : String} (hstage : stage ≠ "") (parts : List String) :
    ∃ rest, (jobName (stage :: parts)).toList = stage.toList ++ rest ∧ (rest = [] ∨ rest.head? = some ':') := by
  have hkeep : (!stage.isEmpty) = true := by simpa using hstage
  rw [jobName, List.filter_cons, if_pos hkeep]
  cases parts.filter (fun part => !part.isEmpty) with
  | nil => exact ⟨[], by simp [Text.join], .inl rfl⟩
  | cons next others =>
    exact ⟨':' :: (Text.join ":" (next :: others)).toList, by simp [Text.join], .inr rfl⟩

/-- The job of the key is named after its stage. -/
def IsNamed (k : BundleKey) : Prop := ∃ parts, k.job = jobName (k.stage :: parts)

/-- After the shorter stage a colon cannot be the first character of the mark. -/
lemma IsNamed.not_isTakenFor {k k' : BundleKey} (hk : k.stage ≠ "") (hnamed : IsNamed k) (hnamed' : IsNamed k') :
    ¬IsTakenFor k k' := by
  intro h
  obtain ⟨parts, hjob⟩ := hnamed
  obtain ⟨parts', hjob'⟩ := hnamed'
  have hk' : k'.stage ≠ "" := by simp [h.stage, hk]
  obtain ⟨rest, hrest, hcolon⟩ := toList_jobName hk parts
  obtain ⟨rest', hrest', _⟩ := toList_jobName hk' parts'
  have hsame : k.stage.toList ++ rest = k.stage.toList ++ (BundleKey.failedSuffix.toList ++ rest') := by
    rw [← hrest, ← hjob, h.job, hjob', hrest', h.stage, String.toList_append, List.append_assoc]
  have hmark := List.append_cancel_left hsame
  rcases hcolon with rfl | hcolon
  · simp [BundleKey.failedSuffix] at hmark
  · simp [hmark, BundleKey.failedSuffix] at hcolon

/-- Whichever pipelines they are from, staged jobs whose bundles are stored under one text have the same
name and stage, and both have failed or neither has. -/
theorem generated_keys_inj {p p' : Plan} {pipeline pipeline' : Pipeline} (h : Generates p pipeline)
    (h' : Generates p' pipeline') {job job' : Job} (hjob : job ∈ pipeline.jobs) (hjob' : job' ∈ pipeline'.jobs)
    (hstaged : IsStaged job) (hstaged' : IsStaged job') {id id' : String} {failed failed' : Bool}
    (hk : IsAccepted ⟨id, job.stage, job.name, failed⟩) (hk' : IsAccepted ⟨id', job'.stage, job'.name, failed'⟩)
    (htext : (⟨id, job.stage, job.name, failed⟩ : BundleKey).text =
      (⟨id', job'.stage, job'.name, failed'⟩ : BundleKey).text) :
    id = id' ∧ job.stage = job'.stage ∧ job.name = job'.name ∧ failed = failed' := by
  have hnamed : ∀ {p : Plan} {pipeline : Pipeline}, Generates p pipeline → ∀ job ∈ pipeline.jobs,
      IsStaged job → ∀ id failed, IsNamed ⟨id, job.stage, job.name, failed⟩ := by
    intro p pipeline h job hjob hstaged id failed
    obtain ⟨host, platforms, hfor⟩ := exists_stagedFor h hjob hstaged
    exact hfor.named
  have hown := hnamed h job hjob hstaged id failed
  have hother := hnamed h' job' hjob' hstaged' id' failed'
  rcases eq_or_isTakenFor hk.hasPieces htext with heq | htaken | htaken
  · simpa using heq
  · exact (hown.not_isTakenFor (isAccepted_iff.mp hk).2.1.nonempty hother htaken).elim
  · exact (hother.not_isTakenFor (isAccepted_iff.mp hk').2.1.nonempty hown htaken).elim

end CrossBuild.Proofs
