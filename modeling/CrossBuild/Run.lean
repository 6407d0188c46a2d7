import CrossBuild.Directive.Basic
import CrossBuild.Directive.CommitTag

/-!
The run that asks for pipelines: what started it, on which branch of which group, and the texts that
may hold its directive. It is read once from the variables of the environment, where a variable that
holds only blanks counts as not set.
-/

namespace CrossBuild

/-- What started a run. -/
inductive Cause where
  | push
  | web
  | schedule
  | api
  | trigger
  | mergeRequest
  /-- A job of a parent pipeline in this repository. -/
  | parentPipeline
  /-- A pipeline of another repository. -/
  | otherPipeline
  deriving DecidableEq, Repr, Inhabited

namespace Cause

def all : List Cause :=
  [.push, .web, .schedule, .api, .trigger, .mergeRequest, .parentPipeline, .otherPipeline]

def name : Cause → String
  | .push => "push"
  | .web => "web"
  | .schedule => "schedule"
  | .api => "api"
  | .trigger => "trigger"
  | .mergeRequest => "merge_request_event"
  | .parentPipeline => "parent_pipeline"
  | .otherPipeline => "pipeline"

def ofName? (s : String) : Option Cause := all.find? (·.name == s)

def isChild (c : Cause) : Bool := c == .parentPipeline

def isScheduled (c : Cause) : Bool := c == .schedule

end Cause

/-- The variables that a run is read from. -/
inductive RunVariable where
  | pipelineId
  | pipelineSource
  | commitRefName
  | mergeRequestBranch
  | projectNamespace
  | commitMessage
  | platforms
  | mergeRequestPlatforms
  | parentPipelineId
  | defaultHosts
  deriving DecidableEq, Repr

def RunVariable.name : RunVariable → String
  | .pipelineId => "CI_PIPELINE_ID"
  | .pipelineSource => "CI_PIPELINE_SOURCE"
  | .commitRefName => "CI_COMMIT_REF_NAME"
  | .mergeRequestBranch => "CI_MERGE_REQUEST_SOURCE_BRANCH_NAME"
  | .projectNamespace => "CI_PROJECT_NAMESPACE"
  | .commitMessage => "CI_COMMIT_MESSAGE"
  | .platforms => "platforms"
  | .mergeRequestPlatforms => "mr_platforms"
  | .parentPipelineId => "PIPEGEN_UPSTREAM_PIPELINE_ID"
  | .defaultHosts => "PIPEGEN_DEFAULT_HOSTS"

/-- Why a run or its directive cannot be read. -/
inductive RunError where
  | missing (var : RunVariable)
  | unknownCause (word : String)
  | directive (var : RunVariable) (error : DirectiveError)
  deriving DecidableEq, Repr

def RunError.message : RunError → String
  | .missing var => "required variable `" ++ var.name ++ "` is not set"
  | .unknownCause word => "unrecognised pipeline source: " ++ word
  | .directive var error => "directive from `" ++ var.name ++ "` is invalid: " ++ error.message

/-- What is known of the run that asks for pipelines. -/
structure Run where
  pipelineId : String
  /-- The parent's pipeline id when this run is a generated child. -/
  parentId : Option String
  cause : Cause
  branch : String
  /-- The last part of the project's namespace. -/
  group : String
  commitMessage : Option String
  platforms : Option String
  mergeRequestPlatforms : Option String
  defaultHosts : List String
  deriving DecidableEq, Repr, Inhabited

namespace Run

/-- The variables of an environment. -/
abbrev Variables := String → Option String

/-- A variable that holds more than blanks. -/
def get? (vars : Variables) (var : RunVariable) : Option String :=
  (vars var.name).filter (fun value => !Text.allBlank value)

def require (vars : Variables) (var : RunVariable) : Except RunError String :=
  match get? vars var with
  | some value => .ok value
  | none => .error (.missing var)

/-- The variable that names the branch. -/
def branchVariable : Cause → RunVariable
  | .mergeRequest => .mergeRequestBranch
  | _ => .commitRefName

/-- The part after the last slash. -/
def lastPart (namespacePath : String) : String :=
  (Text.splitAt '/' namespacePath).getLast?.getD namespacePath

/-- Host names between commas and blanks. -/
def hostNames (text : String) : List String :=
  (Text.runs (fun c => c == ',' || Text.isBlank c) text.toList).map String.ofList

def readCause (vars : Variables) : Except RunError Cause := do
  let word ← require vars .pipelineSource
  match Cause.ofName? word with
  | some cause => return cause
  | none => throw (.unknownCause word)

/-- Reads a run. The first thing missing is reported, in the order cause, branch, group, pipeline id. -/
def ofVariables (vars : Variables) : Except RunError Run := do
  let cause ← readCause vars
  let branch ← require vars (branchVariable cause)
  let namespacePath ← require vars .projectNamespace
  let pipelineId ← require vars .pipelineId
  return {
    pipelineId
    parentId := get? vars .parentPipelineId
    cause
    branch
    group := lastPart namespacePath
    commitMessage := get? vars .commitMessage
    platforms := get? vars .platforms
    mergeRequestPlatforms := get? vars .mergeRequestPlatforms
    defaultHosts := ((get? vars .defaultHosts).map hostNames).getD [] }

def platformsText (run : Run) : Except RunError (RunVariable × String) :=
  match run.platforms with
  | some text => .ok (.platforms, text)
  | none => .error (.missing .platforms)

/-- The one text that holds the run's directive, with the variable it comes from: for merge requests
their own, for pushes a tag in the commit message, otherwise the general one. -/
def directiveText (run : Run) : Except RunError (RunVariable × String) :=
  match run.cause with
  | .mergeRequest =>
    match run.mergeRequestPlatforms with
    | some text => .ok (.mergeRequestPlatforms, text)
    | none => .error (.missing .mergeRequestPlatforms)
  | .push =>
    match run.commitMessage.bind CommitTag.ofMessage? with
    | some tag => .ok (.commitMessage, tag)
    | none => run.platformsText
  | _ => run.platformsText

/-- The run's directive. -/
def directive (rule : ColonlessRule) (run : Run) : Except RunError Directive := do
  let (var, text) ← run.directiveText
  match Directive.parse rule text with
  | .ok directive => return directive
  | .error error => throw (.directive var error)

end Run

end CrossBuild
