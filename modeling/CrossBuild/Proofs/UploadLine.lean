import CrossBuild.Proofs.ChildLine

/-!
# The lines that store bundles

What the program takes the words of such a line for. They name the stage and the job of the bundle, how the
job ended, and the file of the settings; where the store is and which pipeline this is, the environment
says. A stage or a job whose name begins with a dash cannot be told in this way.
-/

namespace CrossBuild.Proofs
open CommandLine Settings

/-- What the line asks for: all that changed since the job began, under the key of the job. -/
def uploadOptions (stage job : String) (failed : Bool) : UploadOptions where
  stage
  job
  failed
  tag := some (if failed then BundleTag.failedJob.name else BundleTag.successfulJob.name)
  marker := none
  path := none

def uploadAction (vars : Run.Variables) (id stage job : String) (failed : Bool) : Action :=
  .upload ⟨Parameter.fallback? vars .storeDir, Parameter.fallback? vars .bucket, id, "."⟩
    (uploadOptions stage job failed)

/-- What the words after the command give. -/
def uploadGiven (stage job : String) (failed : Bool) : List (Parameter × String) :=
  [(.stage, stage), (.job, job)] ++
    if failed then [(.failed, ""), (.tag, BundleTag.failedJob.name)] else [(.tag, BundleTag.successfulJob.name)]

lemma all_uploadGiven (source : Option String) (stage job : String) (failed : Bool) (p : Parameter) :
    Given.all ⟨source.toList.map (.config, ·) ++ uploadGiven stage job failed, []⟩ p =
      match p with
      | .config => source.toList
      | .stage => [stage]
      | .job => [job]
      | .failed => if failed then [""] else []
      | .tag => [if failed then BundleTag.failedJob.name else BundleTag.successfulJob.name]
      | _ => [] := by
  rw [all_append]
  cases p with
  | config =>
    rw [all_map_self]
    cases failed <;> exact List.append_nil _
  | _ =>
    rw [all_map_of_ne (by decide)]
    cases failed <;> rfl

lemma action_uploadLine {vars : Run.Variables} {id : String} (hid : Parameter.fallback? vars .pipelineId = some id)
    (source : Option String) (stage job : String) (failed : Bool) :
    Reading.action vars ⟨.upload, ⟨source.toList.map (.config, ·) ++ uploadGiven stage job failed, []⟩⟩ =
      .ok (uploadAction vars id stage job failed) := by
  simp only [Reading.action, Reading.storeOptions, Reading.uploadOptions, Reading.require, Reading.value?,
    Given.last?, Given.has, all_uploadGiven, hid]
  cases failed <;> rfl

section Line

variable {vars : Run.Variables} (hpaths : NoEmptyPath vars) {stage job : String} {failed : Bool}

include hpaths

lemma read_upload {r : Reading} :
    Level.upload.read vars .nothing (["--stage", stage, "--job", job] ++
        if failed then ["--failed", "--tag", BundleTag.failedJob.name] else ["--tag", BundleTag.successfulJob.name]) =
        .ok r ↔
      (IsPlainWord stage ∧ IsPlainWord job) ∧ ⟨.upload, ⟨uploadGiven stage job failed, []⟩⟩ = r := by
  have hstage : "--stage" = Parameter.display .stage := by decide
  have hjob : "--job" = Parameter.display .job := by decide
  have hfailed : "--failed" = Parameter.display .failed := by decide
  have htag : "--tag" = Parameter.display .tag := by decide
  have hclose : ∀ given, Level.upload.close vars given = .ok ⟨.upload, given⟩ := by
    intro given
    simp [Level.close, Level.below, checkFallbacks_of_noEmptyPath hpaths]
  rw [hstage, hjob, hfailed, htag]
  simp only [List.cons_append, List.nil_append]
  by_cases hplainStage : IsPlainWord stage
  · rw [read_option vars (by decide) (by decide) (.inr rfl) (by simp [Parameter.takes]) hplainStage]
    by_cases hplainJob : IsPlainWord job
    · rw [read_option vars (by decide) (by decide) (.inr rfl) (by simp [Parameter.takes]) hplainJob]
      cases failed with
      | true =>
        rw [if_pos rfl, read_flag vars (by decide) rfl rfl,
          read_option vars (by decide) (by decide) (.inr rfl) (by simp [Parameter.takes]) (by decide), Level.read,
          hclose]
        simp [hplainStage, hplainJob, uploadGiven, Given.nothing]
      | false =>
        rw [if_neg (by decide),
          read_option vars (by decide) (by decide) (.inr rfl) (by simp [Parameter.takes]) (by decide), Level.read,
          hclose]
        simp [hplainStage, hplainJob, uploadGiven, Given.nothing]
    · rw [read_option_refused vars (by decide) (by decide) hplainJob]
      simp [Level.refuse, hplainJob]
  · rw [read_option_refused vars (by decide) (by decide) hplainStage]
    simp [Level.refuse, hplainStage]

/-- The whole line, with the settings' file before the commands. -/
lemma read_uploadLine {s : Settings} {r : Reading} :
    Reading.ofWords vars (s.uploadCommand stage job failed).argv.tail = .ok r ↔
      CanNameSource s ∧ (IsPlainWord stage ∧ IsPlainWord job) ∧
        ⟨.upload, ⟨s.source.toList.map (.config, ·) ++ uploadGiven stage job failed, []⟩⟩ = r := by
  have hartifacts : Level.top.command? "artifacts" = some .artifacts := by decide
  have hupload : Level.artifacts.command? "upload" = some .upload := by decide
  have hchecked : ∀ (level : Level) given, level.checkFallbacks vars given = .ok () :=
    checkFallbacks_of_noEmptyPath hpaths
  have hcommands : ∀ (given : Given) (r : Reading),
      Level.top.read vars given ("artifacts" :: "upload" :: (["--stage", stage, "--job", job] ++
        if failed then ["--failed", "--tag", BundleTag.failedJob.name] else ["--tag", BundleTag.successfulJob.name])) =
        .ok r ↔ (IsPlainWord stage ∧ IsPlainWord job) ∧
          ⟨.upload, ⟨given.values ++ uploadGiven stage job failed, []⟩⟩ = r := by
    intro given r
    rw [read_command (by decide) hartifacts]
    simp only [read_command (by decide) hupload, read_upload hpaths, hchecked, true_and]
    constructor
    · rintro ⟨_, ⟨_, ⟨hplain, rfl⟩, rfl⟩, rfl⟩
      exact ⟨hplain, rfl⟩
    · rintro ⟨hplain, rfl⟩
      exact ⟨_, ⟨_, ⟨hplain, rfl⟩, rfl⟩, rfl⟩
  unfold Reading.ofWords uploadCommand generatorCommand CanNameSource
  cases s.source with
  | none =>
    simp only [Command.withArgs, Command.ofArgv, List.cons_append, List.tail_cons, List.nil_append,
      Option.toList_none, List.map_nil, Option.mem_def, reduceCtorEq, false_imp_iff, implies_true, true_and]
    exact hcommands .nothing r
  | some path =>
    simp only [Command.withArgs, Command.ofArgv, List.cons_append, List.tail_cons, List.nil_append, read_config,
      Option.mem_some, forall_eq', ← and_assoc (a := _ ≠ _)]
    exact and_congr_right' (hcommands ⟨[(.config, path)], []⟩ r)

/-- A line that stores a bundle is read as this upload or not at all. -/
theorem uploadLine_asks {s : Settings} {id : String} (hid : Parameter.fallback? vars .pipelineId = some id)
    (action : Action) :
    (Invocation.ofWords vars (s.uploadCommand stage job failed).argv.tail).toOption.map (·.action) = some action ↔
      CanNameSource s ∧ (IsPlainWord stage ∧ IsPlainWord job) ∧ uploadAction vars id stage job failed = action := by
  rw [Option.map_eq_bind]
  refine ofWords_eq_ok.trans ?_
  simp only [read_uploadLine hpaths]
  constructor
  · rintro ⟨_, ⟨hsource, hplain, rfl⟩, haction⟩
    rw [action_uploadLine hid, Except.ok.injEq] at haction
    exact ⟨hsource, hplain, haction⟩
  · rintro ⟨hsource, hplain, rfl⟩
    exact ⟨_, ⟨hsource, hplain, rfl⟩, action_uploadLine hid _ _ _ _⟩

end Line

end CrossBuild.Proofs
