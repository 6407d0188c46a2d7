import CrossBuild.Exchange.Inventory
import CrossBuild.JobScript
import CrossBuild.Pipeline.Descriptor
import CrossBuild.Plan.Selection

/-!
Stages, commands, jobs, pipelines, settings and selections as JSON.
-/

namespace CrossBuild

def Stage.toJson (s : Stage) : Json := .object [("name", .text s.name), ("role", .text s.role.name)]

def Catalog.toJson (c : Catalog) : Json :=
  let stages := fun (list : List Stage) => Json.array (list.map (·.toJson))
  .object [("version", .text c.version), ("host", stages c.host), ("rcc", stages c.rcc),
    ("hdl", stages c.hdl)]

def StageRole.ofJson? (j : Json) : Option StageRole := j.text?.bind StageRole.ofName?

def Stage.ofJson? (j : Json) : Option Stage := do
  return { name := ← j.field? "name" Json.text?, role := ← j.field? "role" StageRole.ofJson? }

def Catalog.ofJson? (j : Json) : Option Catalog := do
  let stages := fun key => j.field? key (·.list? Stage.ofJson?)
  return {
    version := ← j.field? "version" Json.text?
    host := ← stages "host"
    rcc := ← stages "rcc"
    hdl := ← stages "hdl" }

def Command.toJson (c : Command) : Json :=
  .object [("argv", .ofTexts c.argv), ("cwd", .ofText? c.cwd),
    ("expected_exit_codes", .array (c.expected.map .int))]

def Strategy.toJson? (s : Option Strategy) : Json := .ofText? (s.map (·.name))

def Trigger.toJson : Trigger → Json
  | .child artifact job strategy =>
    .object [("type", .text "child"), ("artifact", .text artifact), ("job", .text job),
      ("strategy", Strategy.toJson? strategy)]
  | .downstream project branch strategy =>
    .object [("type", .text "downstream"), ("project", .text project), ("branch", .text branch),
      ("strategy", Strategy.toJson? strategy)]

/-- Variables by name. -/
def variablesToJson (vars : SortedMap String String) : Json :=
  .object (vars.toList.map fun (key, value) => (key, .text value))

def Job.toJson (j : Job) : Json :=
  .object [("name", .text j.name), ("stage", .text j.stage), ("script", .ofTexts j.script),
    ("after_script", .ofTexts j.afterScript), ("variables", variablesToJson j.vars),
    ("artifacts", match j.artifacts with
      | none => .null
      | some paths => .object [("paths", .ofTexts paths)]),
    ("tags", .ofTexts j.tags),
    ("trigger", match j.trigger with | none => .null | some t => t.toJson)]

def Pipeline.toJson (p : Pipeline) : Json :=
  .object [("kind", .text p.kind.name), ("stages", .ofTexts p.stages),
    ("variables", variablesToJson p.vars), ("jobs", .array (p.jobs.map (·.toJson)))]

def Strategy.ofJson? (j : Json) : Option Strategy :=
  j.text?.bind fun s => if s == "depend" then some .depend else none

def Trigger.ofJson? (j : Json) : Option Trigger := do
  let strategy := j.optional? "strategy" Strategy.ofJson?
  match ← j.field? "type" Json.text? with
  | "child" => return .child (← j.field? "artifact" Json.text?) (← j.field? "job" Json.text?) (← strategy)
  | "downstream" =>
    return .downstream (← j.field? "project" Json.text?) (← j.field? "branch" Json.text?) (← strategy)
  | _ => none

/-- A job, of which only the name and the stage have to be given. -/
def Job.ofJson? (j : Json) : Option Job := do
  return {
    name := ← j.field? "name" Json.text?
    stage := ← j.field? "stage" Json.text?
    script := ← j.fieldOr? "script" [] Json.texts?
    afterScript := ← j.fieldOr? "after_script" [] Json.texts?
    vars := SortedMap.ofList (← j.fieldOr? "variables" [] (·.map? Json.text?))
    artifacts := ← j.optional? "artifacts" (·.field? "paths" Json.texts?)
    tags := ← j.fieldOr? "tags" [] Json.texts?
    trigger := ← j.optional? "trigger" Trigger.ofJson? }

def Repository.toJson (r : Repository) : Json :=
  .object [("project", .text r.project), ("url", .ofText? r.url), ("platforms", .ofTexts r.platforms),
    ("branches", .ofTexts r.branches)]

def Repository.ofJson? (j : Json) : Option Repository := do
  return {
    project := ← j.field? "project" Json.text?
    url := ← j.optional? "url" Json.text?
    platforms := ← j.fieldOr? "platforms" [] Json.texts?
    branches := ← j.fieldOr? "branches" [] Json.texts? }

def ColonlessRule.name : ColonlessRule → String
  | .reset => "reset"
  | .merge => "merge"

/-- The settings, apart from the file they were read from. -/
def Settings.toJson (s : Settings) : Json :=
  .object [
    ("projects_dir", .text s.projectsDir),
    ("core_project", .text s.coreProject),
    ("default_hosts", .ofTexts s.defaultHosts),
    ("stage_version", .text s.stageVersion),
    ("stages", match s.stages with | none => .null | some c => c.toJson),
    ("colonless_groups", .text s.colonlessGroups.name),
    ("downstream", .array (s.downstream.map (·.toJson))),
    ("generator", .text s.generator),
    ("build_tool", .text s.buildTool),
    ("ci_dir", .text s.descriptorDir),
    ("runner_tags", .object (s.runnerTags.toList.map fun (host, tags) => (host, .ofTexts tags)))]

def JobScript.toJson (s : JobScript) : Json :=
  .object [("script", .ofTexts s.script), ("after_script", .ofTexts s.afterScript)]

def Target.toJson : Target → Json
  | .here platform =>
    match platform.toJson with
    | .object fields => .object (("location", .text "local") :: fields)
    | j => j
  | .remote name project branch =>
    .object [("location", .text "remote"), ("name", .text name), ("project", .text project),
      ("branch", .text branch)]

mutual

/-- A descriptor as JSON. -/
def Yaml.Value.toJson : Yaml.Value → Json
  | .text s => .text s
  | .list items => .array (Yaml.Value.itemsToJson items)
  | .table entries => .object (Yaml.Value.entriesToJson entries)

def Yaml.Value.itemsToJson : List Yaml.Value → List Json
  | [] => []
  | item :: items => item.toJson :: Yaml.Value.itemsToJson items

def Yaml.Value.entriesToJson : List (String × Yaml.Value) → List (String × Json)
  | [] => []
  | (key, value) :: entries => (key, value.toJson) :: Yaml.Value.entriesToJson entries

end

end CrossBuild
