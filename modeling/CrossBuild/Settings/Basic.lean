import CrossBuild.Directive.Basic
import CrossBuild.Repository
import CrossBuild.Stages

/-!
Settings of the generator: what is fixed for a tree, as opposed to a run.
-/

namespace CrossBuild

structure Settings where
  /-- The directory that holds one directory for each project. -/
  projectsDir : String
  /-- The project whose primitives are built first. -/
  coreProject : String
  /-- The hosts of a run whose directive names none. -/
  defaultHosts : List String
  /-- The built-in catalog to use where no stages are given. -/
  stageVersion : String
  stages : Option Catalog
  colonlessGroups : ColonlessRule
  downstream : List Repository
  /-- The program that job scripts call for their own part of the work. -/
  generator : String
  buildTool : String
  /-- Where the descriptors of children are written. -/
  descriptorDir : String
  /-- Runner tags of a host's jobs, besides the host's name. -/
  runnerTags : SortedMap String (List String)
  /-- The file that the settings were read from. -/
  source : Option String
  deriving DecidableEq

/-- Why settings cannot be used. -/
inductive SettingsError where
  /-- The file cannot be read. -/
  | unreadable
  /-- The text is not a document of settings. -/
  | malformed
  | unknownVersion (version : String)
  | catalog (error : CatalogError)
  deriving DecidableEq, Repr

def SettingsError.message : SettingsError → String
  | .unreadable => "failed to read config"
  | .malformed => "YAML error"
  | .unknownVersion version => "invalid configuration: unknown stage_version `" ++ version ++ "`"
  | .catalog error => "invalid configuration: " ++ error.message

namespace Settings

/-- The settings of a tree that has none. -/
def standard : Settings where
  projectsDir := "projects"
  coreProject := "core"
  defaultHosts := ["centos7"]
  stageVersion := Catalog.defaultVersion
  stages := none
  colonlessGroups := .reset
  downstream := []
  generator := "pipegen"
  buildTool := "make"
  descriptorDir := ".pipegen"
  runnerTags := ∅
  source := none

instance : Inhabited Settings := ⟨standard⟩

/-- The catalog that the settings give or name. -/
def chosenCatalog (s : Settings) : Except SettingsError Catalog :=
  match s.stages with
  | some catalog => .ok catalog
  | none =>
    match Catalog.builtin? s.stageVersion with
    | some catalog => .ok catalog
    | none => .error (.unknownVersion s.stageVersion)

/-- The stages that the settings select, if they can be used. -/
def catalog (s : Settings) : Except SettingsError Catalog := do
  let catalog ← s.chosenCatalog
  match catalog.validate with
  | .ok () => return catalog
  | .error error => throw (.catalog error)

/-- The first repository that builds a platform. -/
def repositoryFor? (s : Settings) (platform : String) : Option Repository :=
  s.downstream.find? (·.provides platform)

/-- The runner tags of jobs on a host. -/
def tagsFor (s : Settings) (host : String) : List String :=
  host :: (s.runnerTags.get? host).getD []

end Settings

end CrossBuild
