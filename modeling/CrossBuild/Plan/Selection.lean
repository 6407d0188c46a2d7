import CrossBuild.Inventory.Basic
import CrossBuild.Pipeline.Basic
import CrossBuild.Run
import CrossBuild.Settings.Basic

/-!
What a run builds. The directive names platforms; those that are hosts build, and every other one is a
target of the hosts that it is linked to, or of all hosts if it is linked to none. A name that the tree
does not know is a target too if a repository downstream builds it.
-/

namespace CrossBuild

/-- Something that a host builds for. -/
inductive Target where
  /-- A platform of this tree, built by a child pipeline. -/
  | here (platform : Platform)
  /-- A platform that another repository builds. -/
  | remote (name project branch : String)
  deriving DecidableEq

def Target.name : Target → String
  | .here platform => platform.name
  | .remote name _ _ => name

/-- The hosts of a run and the targets of each. -/
structure Selection where
  hosts : List Platform
  targets : SortedMap String (List Target)
  deriving DecidableEq, Inhabited

def Selection.targetsOf (s : Selection) (host : String) : List Target := (s.targets.get? host).getD []

/-- Why a run has no pipelines. -/
inductive PlanError where
  | placement (error : PlacementError)
  | missingStage (role : StageRole) (kind : PipelineKind)
  | unbuildableLibrary (project library : String) (kind : LibraryKind) (pipeline : PipelineKind)
  | notAHost (name : String)
  | notDiscovered (name : String)
  | noHosts
  deriving DecidableEq, Repr

def PlanError.message : PlanError → String
  | .placement error => error.message
  | .missingStage role kind => "the " ++ kind.name ++ " stage list has no stage for " ++ role.name ++ " jobs"
  | .unbuildableLibrary project library kind pipeline =>
    "no " ++ pipeline.name ++ " stage builds library `" ++ project ++ "/" ++ library ++ "` of kind `" ++
      kind.name ++ "`"
  | .notAHost name => "unknown platform `" ++ name ++ "`: not a discovered host platform"
  | .notDiscovered name => "unknown platform `" ++ name ++ "`: not discovered"
  | .noHosts => "no host platform selected (directive names none and no default host was discovered)"

/-- What pipelines are made from: the settings with their stages, the tree, the run and its directive. -/
structure Plan where
  settings : Settings
  catalog : Catalog
  inventory : Inventory
  run : Run
  directive : Directive

namespace Plan

/-- The platforms of the tree that the directive names, with their links. -/
def named (p : Plan) : List Platform :=
  let known := p.inventory.platformNames
  (p.inventory.platforms.filter (fun platform => p.directive.contains platform.name)).map
    (·.withLinks p.directive known)

/-- The hosts that stand in for named ones: those of the run if it lists any, else those of the
settings. -/
def defaultHostNames (p : Plan) : List String :=
  if p.run.defaultHosts.isEmpty then p.settings.defaultHosts else p.run.defaultHosts

/-- The default hosts that the tree has. -/
def defaultHosts (p : Plan) : List Platform :=
  let known := p.inventory.platformNames
  p.defaultHostNames.filterMap fun name =>
    ((p.inventory.platform? name).filter (·.isHost)).map (·.withLinks p.directive known)

/-- The hosts that the directive names, or the default ones if it names none. -/
def hosts (p : Plan) : List Platform :=
  match p.named.filter (·.isHost) with
  | [] => p.defaultHosts
  | hosts => hosts

/-- The hosts to which a target with some links belongs. -/
def hostsFor (hosts : List Platform) (linked : NameSet) : List String :=
  match (hosts.filter (fun host => linked.contains host.name)).map (·.name) with
  | [] => hosts.map (·.name)
  | names => names

/-- Adds a target to hosts. -/
def attach (targets : SortedMap String (List Target)) (hosts : List String) (target : Target) :
    SortedMap String (List Target) :=
  hosts.foldl (fun targets host => targets.update host (fun old => old.getD [] ++ [target])) targets

/-- The target that a name unknown to the tree stands for. -/
def remoteTarget? (p : Plan) (name : String) : Option Target :=
  (p.settings.repositoryFor? name).map fun repository =>
    .remote name repository.project (repository.branchFor p.run.group p.run.branch)

/-- The targets that the directive names outside the tree, with their links. -/
def remoteTargets (p : Plan) : List (Target × NameSet) :=
  (p.directive.platforms.filter (fun name => !p.inventory.platformNames.contains name)).filterMap
    fun name => (p.remoteTarget? name).map (·, (p.directive.links? name).getD ∅)

/-- The targets of the tree that the directive names, with their links. -/
def localTargets (p : Plan) : List (Target × NameSet) :=
  (p.named.filter (fun platform => !platform.isHost)).map fun platform => (.here platform, platform.linked)

/-- The hosts of the run and their targets. -/
def select (p : Plan) : Except PlanError Selection :=
  match p.hosts with
  | [] => .error .noHosts
  | hosts =>
    let start : SortedMap String (List Target) := .ofList (hosts.map fun host => (host.name, []))
    .ok {
      hosts
      targets := (p.localTargets ++ p.remoteTargets).foldl
        (fun targets (target, linked) => attach targets (hostsFor hosts linked) target) start }

end Plan

end CrossBuild
