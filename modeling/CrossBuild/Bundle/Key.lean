import CrossBuild.Text.Basic

/-!
A bundle holds what one job made. Its key is the pipeline's id, the stage, with a suffix if the job
failed, and the job's name, as the parts of a path.
-/

namespace CrossBuild

structure BundleKey where
  pipelineId : String
  stage : String
  job : String
  /-- Whether the bundle is that of a failed job. -/
  failed : Bool
  deriving DecidableEq, Repr

/-- What is wrong with a part of a key. -/
inductive KeyFault where
  | empty
  | slash
  | relative
  deriving DecidableEq, Repr

def KeyFault.reason : KeyFault → String
  | .empty => "must not be empty"
  | .slash => "must not contain `/`"
  | .relative => "must not be a relative path segment"

namespace BundleKey

def extension : String := ".tar.gz"

def failedSuffix : String := "-failed"

/-- The fault of a part that would change the layout of keys. -/
def fault? (part : String) : Option KeyFault :=
  if part.isEmpty then some .empty
  else if part.toList.contains '/' then some .slash
  else if part == "." || part == ".." then some .relative
  else none

/-- The key of a successful job's bundle, or the first bad part with its fault. -/
def ofParts (pipelineId stage job : String) : Except (String × KeyFault) BundleKey :=
  match [pipelineId, stage, job].findSome? (fun part => (fault? part).map (part, ·)) with
  | some bad => .error bad
  | none => .ok ⟨pipelineId, stage, job, false⟩

/-- The key of the same job's bundle if it failed. -/
def asFailed (k : BundleKey) : BundleKey := { k with failed := true }

/-- What the keys of a pipeline begin with. -/
def pipelineStart (pipelineId : String) : String := pipelineId ++ "/"

/-- The key as a path. -/
def text (k : BundleKey) : String :=
  k.pipelineId ++ "/" ++ k.stage ++ (if k.failed then failedSuffix else "") ++ "/" ++ k.job ++ extension

end BundleKey

/-- What decides how long a bundle is kept. -/
inductive BundleTag where
  | successfulJob
  | failedJob
  | custom (name : String)
  deriving DecidableEq, Repr

namespace BundleTag

def name : BundleTag → String
  | .successfulJob => "successful-job"
  | .failedJob => "failed-job"
  | .custom name => name

def ofName (s : String) : BundleTag :=
  if s == "successful-job" then .successfulJob
  else if s == "failed-job" then .failedJob
  else .custom s

end BundleTag

end CrossBuild
