import CrossBuild.Proofs.CommitTags
import CrossBuild.Proofs.Sequencing
import CrossBuild.Run
import Mathlib.Logic.Function.Basic

/-!
# Where a directive comes from

A run is read from variables, and its directive from one text among them. Which one that is depends on what
started the run: no other variable has a say in the directive. A variable that holds only blank characters
is as good as none, and a run that cannot be read is told by the first variable that is at fault.
-/

namespace CrossBuild.Proofs
open Text

/-! ### Variables that are set -/

/-- The variable has a value with more than blank characters in it. -/
def IsSet (vars : Run.Variables) (var : RunVariable) (value : String) : Prop :=
  vars var.name = some value ∧ allBlank value = false

/-- The variable has no value or one of blank characters only. -/
def IsUnset (vars : Run.Variables) (var : RunVariable) : Prop :=
  ∀ value, vars var.name = some value → allBlank value = true

/-- A variable says the same in both environments. -/
def Agree (vars vars' : Run.Variables) (var : RunVariable) : Prop :=
  ∀ value, IsSet vars var value ↔ IsSet vars' var value

section Variables

variable {vars vars' : Run.Variables} {var : RunVariable} {value : String}

lemma get?_variable_eq_some : Run.get? vars var = some value ↔ IsSet vars var value := by
  simp [Run.get?, IsSet, Option.filter_eq_some_iff]

lemma get?_variable_eq_none : Run.get? vars var = none ↔ IsUnset vars var := by
  simp [Run.get?, IsUnset, Option.filter_eq_none_iff]

lemma Agree.get?_eq (h : Agree vars vars' var) : Run.get? vars var = Run.get? vars' var := by
  apply Option.ext
  intro value
  rw [get?_variable_eq_some, get?_variable_eq_some, h value]

lemma agree_of_eq (h : vars var.name = vars' var.name) : Agree vars vars' var := by
  intro value
  rw [IsSet, IsSet, h]

lemma require_eq_ok : Run.require vars var = .ok value ↔ IsSet vars var value := by
  rw [Run.require, ← get?_variable_eq_some]
  cases Run.get? vars var with
  | none => simp
  | some other => simp

lemma require_eq_error {e : RunError} : Run.require vars var = .error e ↔ IsUnset vars var ∧ .missing var = e := by
  rw [Run.require, ← get?_variable_eq_none]
  cases Run.get? vars var with
  | none => simp
  | some other => simp

lemma require_succeeds : (∃ value, IsSet vars var value) ↔ ¬IsUnset vars var := by
  simp only [← get?_variable_eq_some, ← get?_variable_eq_none, ← Option.ne_none_iff_exists', ne_eq]

/-- A value of blank characters is as good as none. -/
lemma agree_update {blank : String} (hblank : allBlank blank = true) (vars : Run.Variables) (name : String)
    (var : RunVariable) : Agree (Function.update vars name (some blank)) (Function.update vars name none) var := by
  by_cases hname : var.name = name
  · intro value
    have hnot : ∀ other : Option String, (∀ value ∈ other, allBlank value = true) →
        ¬IsSet (Function.update vars name other) var value := by
      rintro other hother ⟨hvalue, hset⟩
      rw [hname, Function.update_self] at hvalue
      rw [hother value hvalue] at hset
      cases hset
    refine iff_of_false (hnot _ ?_) (hnot _ ?_)
    · rintro value ⟨⟩
      exact hblank
    · rintro value ⟨⟩
  · apply agree_of_eq
    rw [Function.update_of_ne hname, Function.update_of_ne hname]

end Variables

/-! ### Reading a run -/

section Reading

variable {vars vars' : Run.Variables} {run : Run} {cause : Cause} {word : String}

lemma ofName?_eq_some : Cause.ofName? word = some cause ↔ cause.name = word := by
  constructor
  · intro h
    simpa using List.find?_some h
  · rintro rfl
    cases cause <;> decide

lemma ofName?_eq_none : Cause.ofName? word = none ↔ ∀ cause : Cause, cause.name ≠ word := by
  rw [Option.eq_none_iff_forall_ne_some]
  exact forall_congr' fun cause => not_congr ofName?_eq_some

lemma readCause_eq_ok : Run.readCause vars = .ok cause ↔ IsSet vars .pipelineSource cause.name := by
  rw [Run.readCause, bind_eq_ok]
  constructor
  · rintro ⟨word, hword, h⟩
    cases hcause : Cause.ofName? word with
    | none =>
      rw [hcause] at h
      cases h
    | some other =>
      rw [hcause] at h
      obtain rfl := pure_eq_ok.mp h
      rw [ofName?_eq_some.mp hcause]
      exact require_eq_ok.mp hword
  · intro hset
    refine ⟨_, require_eq_ok.mpr hset, ?_⟩
    rw [ofName?_eq_some.mpr rfl]
    rfl

lemma readCause_eq_error {e : RunError} : Run.readCause vars = .error e ↔
    IsUnset vars .pipelineSource ∧ .missing .pipelineSource = e ∨
      ∃ word, IsSet vars .pipelineSource word ∧ (∀ cause : Cause, cause.name ≠ word) ∧ .unknownCause word = e := by
  rw [Run.readCause, bind_eq_error, require_eq_error]
  refine or_congr Iff.rfl (exists_congr fun word => ?_)
  rw [require_eq_ok, ← ofName?_eq_none]
  cases Cause.ofName? word with
  | none => simp [throw, throwThe, MonadExceptOf.throw]
  | some cause => simp [pure, Except.pure]

/-- What a run that is read has from its variables, so far as its directive goes. -/
lemma ofVariables_eq_ok (h : Run.ofVariables vars = .ok run) :
    IsSet vars .pipelineSource run.cause.name ∧ run.commitMessage = Run.get? vars .commitMessage ∧
      run.platforms = Run.get? vars .platforms ∧
      run.mergeRequestPlatforms = Run.get? vars .mergeRequestPlatforms := by
  unfold Run.ofVariables at h
  obtain ⟨cause, hcause, h⟩ := bind_eq_ok.mp h
  obtain ⟨branch, _, h⟩ := bind_eq_ok.mp h
  obtain ⟨namespacePath, _, h⟩ := bind_eq_ok.mp h
  obtain ⟨pipelineId, _, h⟩ := bind_eq_ok.mp h
  obtain rfl := pure_eq_ok.mp h
  exact ⟨readCause_eq_ok.mp hcause, rfl, rfl, rfl⟩

/-- A run is all that its variables say. -/
lemma ofVariables_congr (h : ∀ var, Agree vars vars' var) : Run.ofVariables vars = Run.ofVariables vars' := by
  have hget : Run.get? vars = Run.get? vars' := funext fun var => (h var).get?_eq
  have hrequire : Run.require vars = Run.require vars' := by
    funext var
    rw [Run.require, Run.require, hget]
  rw [Run.ofVariables, Run.ofVariables, Run.readCause, Run.readCause, hget, hrequire]

end Reading

/-! ### The first fault -/

/-- The variable of the branch of a run. -/
def branchOf (cause : Cause) : RunVariable :=
  if cause = .mergeRequest then .mergeRequestBranch else .commitRefName

/-- What keeps a run from being read: the first thing that is missing or not known. -/
inductive FirstFault (vars : Run.Variables) : RunError → Prop
  | noCause : IsUnset vars .pipelineSource → FirstFault vars (.missing .pipelineSource)
  | unknownCause {word : String} : IsSet vars .pipelineSource word → (∀ cause : Cause, cause.name ≠ word) →
      FirstFault vars (.unknownCause word)
  | noBranch {cause : Cause} : IsSet vars .pipelineSource cause.name → IsUnset vars (branchOf cause) →
      FirstFault vars (.missing (branchOf cause))
  | noNamespace {cause : Cause} : IsSet vars .pipelineSource cause.name → ¬IsUnset vars (branchOf cause) →
      IsUnset vars .projectNamespace → FirstFault vars (.missing .projectNamespace)
  | noId {cause : Cause} : IsSet vars .pipelineSource cause.name → ¬IsUnset vars (branchOf cause) →
      ¬IsUnset vars .projectNamespace → IsUnset vars .pipelineId → FirstFault vars (.missing .pipelineId)

lemma branchVariable_eq (cause : Cause) : Run.branchVariable cause = branchOf cause := by
  cases cause <;> rfl

lemma ofVariables_eq_error {vars : Run.Variables} {e : RunError} :
    Run.ofVariables vars = .error e ↔ FirstFault vars e := by
  simp only [Run.ofVariables, bind_eq_error, branchVariable_eq]
  constructor
  · rintro (hcause | ⟨cause, hcause, h⟩)
    · rcases readCause_eq_error.mp hcause with ⟨hunset, rfl⟩ | ⟨word, hset, hunknown, rfl⟩
      · exact .noCause hunset
      · exact .unknownCause hset hunknown
    have hset := readCause_eq_ok.mp hcause
    rcases h with hbranch | ⟨branch, hbranch, h⟩
    · obtain ⟨hunset, rfl⟩ := require_eq_error.mp hbranch
      exact .noBranch hset hunset
    have hbranch := require_succeeds.mp ⟨branch, require_eq_ok.mp hbranch⟩
    rcases h with hnamespace | ⟨namespacePath, hnamespace, h⟩
    · obtain ⟨hunset, rfl⟩ := require_eq_error.mp hnamespace
      exact .noNamespace hset hbranch hunset
    have hnamespace := require_succeeds.mp ⟨namespacePath, require_eq_ok.mp hnamespace⟩
    rcases h with hid | ⟨pipelineId, _, h⟩
    · obtain ⟨hunset, rfl⟩ := require_eq_error.mp hid
      exact .noId hset hbranch hnamespace hunset
    · cases h
  · intro hfault
    have hread : ∀ {var}, ¬IsUnset vars var → ∃ value, Run.require vars var = .ok value := by
      intro var hvar
      obtain ⟨value, hvalue⟩ := require_succeeds.mpr hvar
      exact ⟨value, require_eq_ok.mpr hvalue⟩
    cases hfault with
    | noCause hunset => exact .inl (readCause_eq_error.mpr (.inl ⟨hunset, rfl⟩))
    | unknownCause hset hunknown => exact .inl (readCause_eq_error.mpr (.inr ⟨_, hset, hunknown, rfl⟩))
    | noBranch hset hunset =>
      exact .inr ⟨_, readCause_eq_ok.mpr hset, .inl (require_eq_error.mpr ⟨hunset, rfl⟩)⟩
    | noNamespace hset hbranch hunset =>
      obtain ⟨branch, hbranch⟩ := hread hbranch
      exact .inr ⟨_, readCause_eq_ok.mpr hset, .inr ⟨branch, hbranch,
        .inl (require_eq_error.mpr ⟨hunset, rfl⟩)⟩⟩
    | noId hset hbranch hnamespace hunset =>
      obtain ⟨branch, hbranch⟩ := hread hbranch
      obtain ⟨namespacePath, hnamespace⟩ := hread hnamespace
      exact .inr ⟨_, readCause_eq_ok.mpr hset, .inr ⟨branch, hbranch, .inr ⟨namespacePath, hnamespace,
        .inl (require_eq_error.mpr ⟨hunset, rfl⟩)⟩⟩⟩

/-! ### One origin -/

/-- The tag in the commit message of an environment. -/
def messageTag (vars : Run.Variables) : Option String :=
  (vars RunVariable.commitMessage.name).bind CommitTag.ofMessage?

/-- Two environments say the same where the directive of a run with this cause comes from. -/
inductive SameOrigin (vars vars' : Run.Variables) : Cause → Prop
  | mergeRequest : Agree vars vars' .mergeRequestPlatforms → SameOrigin vars vars' .mergeRequest
  | tagged {tag : String} : messageTag vars = some tag → messageTag vars' = some tag → SameOrigin vars vars' .push
  | untagged : messageTag vars = none → messageTag vars' = none → Agree vars vars' .platforms →
      SameOrigin vars vars' .push
  | other {cause : Cause} : cause ≠ .mergeRequest → cause ≠ .push → Agree vars vars' .platforms →
      SameOrigin vars vars' cause

section Origin

variable {vars vars' : Run.Variables} {run run' : Run}

/-- A message of blank characters only has no tag. -/
lemma ofMessage?_of_allBlank {message : String} (h : allBlank message = true) :
    CommitTag.ofMessage? message = none := by
  rw [CommitTag.ofMessage?, Option.map_eq_none_iff, find?_eq_none]
  intro before opener rest hviable
  obtain ⟨spaces, hopener⟩ := hviable.opener
  have hbracket : '[' ∈ message.toList := by
    rw [hviable.text, hopener]
    simp
  have hblank := List.all_eq_true.mp h '[' hbracket
  cases hblank

lemma bind_get?_commitMessage (vars : Run.Variables) :
    (Run.get? vars .commitMessage).bind CommitTag.ofMessage? = messageTag vars := by
  rw [Run.get?, messageTag]
  cases vars RunVariable.commitMessage.name with
  | none => rfl
  | some message =>
    cases hblank : allBlank message with
    | false => simp [Option.filter, hblank]
    | true => simp [Option.filter, hblank, ofMessage?_of_allBlank hblank]

lemma directiveText_eq (hread : Run.ofVariables vars = .ok run) (hread' : Run.ofVariables vars' = .ok run')
    (hcause : run.cause = run'.cause) (horigin : SameOrigin vars vars' run.cause) :
    run.directiveText = run'.directiveText := by
  obtain ⟨_, hmessage, hplatforms, hmergeRequest⟩ := ofVariables_eq_ok hread
  obtain ⟨_, hmessage', hplatforms', hmergeRequest'⟩ := ofVariables_eq_ok hread'
  have htag : run.commitMessage.bind CommitTag.ofMessage? = messageTag vars := by
    rw [hmessage, bind_get?_commitMessage]
  have htag' : run'.commitMessage.bind CommitTag.ofMessage? = messageTag vars' := by
    rw [hmessage', bind_get?_commitMessage]
  have hgeneral (h : Agree vars vars' .platforms) : run.platformsText = run'.platformsText := by
    rw [Run.platformsText, Run.platformsText, hplatforms, hplatforms', h.get?_eq]
  rw [Run.directiveText, Run.directiveText, ← hcause, htag, htag']
  generalize run.cause = cause at horigin
  cases horigin with
  | mergeRequest hagree => rw [hmergeRequest, hmergeRequest', hagree.get?_eq]
  | tagged hsome hsome' => rw [hsome, hsome']
  | untagged hnone hnone' hagree =>
    rw [hnone, hnone']
    exact hgeneral hagree
  | other hother hpush hagree =>
    cases cause with
    | mergeRequest => exact absurd rfl hother
    | push => exact absurd rfl hpush
    | web | schedule | api | trigger | parentPipeline | otherPipeline => exact hgeneral hagree

/-- The directive of a run is told by its one origin. Blank values are as good as none, and a run that cannot be
read is told by its first fault. -/
theorem directive_origin :
    (∀ vars vars' run run', Run.ofVariables vars = .ok run → Run.ofVariables vars' = .ok run' →
      Agree vars vars' .pipelineSource → SameOrigin vars vars' run.cause →
        ∀ rule, run.directive rule = run'.directive rule) ∧
      (∀ vars name blank, allBlank blank = true →
        Run.ofVariables (Function.update vars name (some blank)) = Run.ofVariables (Function.update vars name none) ∧
          ∀ rule, (Run.ofVariables (Function.update vars name (some blank)) >>= Run.directive rule) =
            (Run.ofVariables (Function.update vars name none) >>= Run.directive rule)) ∧
      ∀ vars e, Run.ofVariables vars = .error e ↔ FirstFault vars e := by
  refine ⟨?_, ?_, ?_⟩
  · intro vars vars' run run' hread hread' hsource horigin rule
    have hset := (hsource run.cause.name).mp (ofVariables_eq_ok hread).1
    have hcause : run.cause = run'.cause := by
      have hsame := readCause_eq_ok.mpr hset
      rw [readCause_eq_ok.mpr (ofVariables_eq_ok hread').1] at hsame
      exact (Except.ok.inj hsame).symm
    rw [Run.directive, Run.directive, directiveText_eq hread hread' hcause horigin]
  · intro vars name blank hblank
    have hread := ofVariables_congr (agree_update hblank vars name)
    exact ⟨hread, fun rule => by rw [hread]⟩
  · intro vars e
    exact ofVariables_eq_error

end Origin

/-- An environment of a scheduled run with a commit message. -/
def scheduledVariables (message : String) : Run.Variables := fun name =>
  [("CI_PIPELINE_SOURCE", "schedule"), ("CI_COMMIT_REF_NAME", "main"), ("CI_PROJECT_NAMESPACE", "group"),
    ("CI_PIPELINE_ID", "1"), ("platforms", "zed:linux"), ("CI_COMMIT_MESSAGE", message)].lookup name

/-- A commit message has no say in a scheduled run, and a blank one in no run. -/
theorem directive_origin_scheduled :
    ∃ (vars vars' : Run.Variables) (run run' : Run), Run.ofVariables vars = .ok run ∧
      Run.ofVariables vars' = .ok run' ∧ Agree vars vars' .pipelineSource ∧ SameOrigin vars vars' run.cause ∧
      messageTag vars = some "none" ∧ messageTag vars' = some "all" ∧
      run.directive .reset = run'.directive .reset ∧ allBlank " \n" = true ∧
      Run.ofVariables (Function.update vars "CI_COMMIT_MESSAGE" (some " \n")) =
        Run.ofVariables (Function.update vars "CI_COMMIT_MESSAGE" none) ∧
      FirstFault (fun _ => none) (.missing .pipelineSource) := by
  let run (message : String) : Run :=
    { (default : Run) with
      pipelineId := "1", cause := .schedule, branch := "main", group := "group", commitMessage := some message,
      platforms := some "zed:linux" }
  have hread : Run.ofVariables (scheduledVariables "[ci none]") = .ok (run "[ci none]") := by decide +kernel
  have hread' : Run.ofVariables (scheduledVariables "[ci all]") = .ok (run "[ci all]") := by decide +kernel
  have hsource : Agree (scheduledVariables "[ci none]") (scheduledVariables "[ci all]") .pipelineSource :=
    agree_of_eq rfl
  have horigin : SameOrigin (scheduledVariables "[ci none]") (scheduledVariables "[ci all]") .schedule :=
    .other (by decide) (by decide) (agree_of_eq rfl)
  have hblank : allBlank " \n" = true := by decide
  obtain ⟨hsame, hupdate, hfault⟩ := directive_origin
  exact ⟨_, _, _, _, hread, hread', hsource, horigin, by decide +kernel, by decide +kernel,
    hsame _ _ _ _ hread hread' hsource horigin .reset, hblank, (hupdate _ _ _ hblank).1,
    (hfault _ _).mp rfl⟩

end CrossBuild.Proofs
