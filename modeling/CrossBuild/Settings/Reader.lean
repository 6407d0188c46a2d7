import CrossBuild.Settings.Basic
import CrossBuild.Yaml.Decode

/-!
Settings from YAML text. A document without entries gives the standard settings. Fields that the
settings do not have are refused; in the tables inside them they are passed over.
-/

namespace CrossBuild.Settings

open Yaml (Node)

def roleOf? (n : Node) : Option StageRole := n.word?.bind StageRole.ofName?

def stageOf? (n : Node) : Option Stage := do
  let fields ← n.fields? ["name", "role"] true
  return { name := ← Node.required? fields "name" Node.text?, role := ← Node.required? fields "role" roleOf? }

def catalogOf? (n : Node) : Option Catalog := do
  let fields ← n.fields? ["version", "host", "rcc", "hdl"] true
  let stages := fun key => Node.required? fields key (·.list? stageOf?)
  return {
    version := ← Node.required? fields "version" Node.text?
    host := ← stages "host"
    rcc := ← stages "rcc"
    hdl := ← stages "hdl" }

def repositoryOf? (n : Node) : Option Repository := do
  let fields ← n.fields? ["project", "url", "platforms", "branches"] true
  return {
    project := ← Node.required? fields "project" Node.text?
    url := ← Node.fieldOr? fields "url" none (·.optional? Node.text?)
    platforms := ← Node.fieldOr? fields "platforms" [] Node.texts?
    branches := ← Node.fieldOr? fields "branches" [] Node.texts? }

def colonlessOf? (n : Node) : Option ColonlessRule :=
  n.word?.bind fun word =>
    if word == "reset" then some .reset else if word == "merge" then some .merge else none

/-- Tags by host; of a host given twice the last ones. -/
def runnerTagsOf? (n : Node) : Option (SortedMap String (List String)) := do
  let entries ← n.table?
  return .ofList (← entries.mapM fun (host, tags) => tags.texts?.map (host, ·))

def fieldNames : List String :=
  ["projects_dir", "core_project", "default_hosts", "stage_version", "stages", "colonless_groups",
    "downstream", "generator", "build_tool", "ci_dir", "runner_tags"]

/-- Reads settings from a document. -/
def ofNode? (n : Node) : Option Settings := do
  let fields ← n.fields? fieldNames false
  let text := fun key standard => Node.fieldOr? fields key standard Node.text?
  return {
    projectsDir := ← text "projects_dir" standard.projectsDir
    coreProject := ← text "core_project" standard.coreProject
    defaultHosts := ← Node.fieldOr? fields "default_hosts" standard.defaultHosts Node.texts?
    stageVersion := ← text "stage_version" standard.stageVersion
    stages := ← Node.fieldOr? fields "stages" none (·.optional? catalogOf?)
    colonlessGroups := ← Node.fieldOr? fields "colonless_groups" standard.colonlessGroups colonlessOf?
    downstream := ← Node.fieldOr? fields "downstream" [] (·.list? repositoryOf?)
    generator := ← text "generator" standard.generator
    buildTool := ← text "build_tool" standard.buildTool
    descriptorDir := ← text "ci_dir" standard.descriptorDir
    runnerTags := ← Node.fieldOr? fields "runner_tags" ∅ runnerTagsOf?
    source := none }

/-- Reads settings and checks that their stages can be used. -/
def ofText (text : String) : Except SettingsError Settings := do
  let settings ←
    match Node.ofString? text with
    | none => throw .malformed
    | some none => pure standard
    | some (some node) =>
      match ofNode? node with
      | some settings => pure settings
      | none => throw .malformed
  let _ ← settings.catalog
  return settings

end CrossBuild.Settings
