import CrossBuild.CommandLine.Failure
import CrossBuild.CommandLine.Invocation
import CrossBuild.Machine
import CrossBuild.Plan.Child
import CrossBuild.Plan.TopLevel
import CrossBuild.Settings.File

/-!
Writing descriptors: that of the top level, or that of the child of one host and platform.
-/

namespace CrossBuild.CommandLine

variable {σ : Type}

def loadSettings (config : Option String) : Task σ Failure Settings := do
  Task.ofExcept .settings (Settings.find (← get).files config)

def loadRun (vars : Run.Variables) : Task σ Failure Run := Task.ofExcept .run (Run.ofVariables vars)

def survey (root : String) : Task σ Failure Inventory := do
  Task.ofExcept (.survey root) (Inventory.survey (← get).files root)

/-- The host and platform of the child that is asked for, or nothing for the top level. -/
def GenerateOptions.target (options : GenerateOptions) : Except Failure (Option (String × String)) :=
  match options.child, options.host, options.platform with
  | false, _, _ => .ok none
  | true, some host, some platform => .ok (some (host, platform))
  | true, _, _ => .error .namelessChild

/-- What pipelines are planned from. -/
def planOf (settings : Settings) (run : Run) (inventory : Inventory) : Except Failure Plan := do
  let catalog ← settings.catalog.mapError .stages
  let directive ← (run.directive settings.colonlessGroups).mapError .runDirective
  return ⟨settings, catalog, inventory, run, directive⟩

/-- The pipeline that is asked for. -/
def pipelineOf (plan : Plan) : Option (String × String) → Except Failure Pipeline
  | some (host, platform) => (plan.child host platform).mapError (.child host platform)
  | none => plan.topLevel.mapError .topLevel

/-- The descriptor of the pipeline that is asked for. -/
def descriptorOf (settings : Settings) (run : Run) (inventory : Inventory) (target : Option (String × String)) :
    Except Failure String := do
  let pipeline ← pipelineOf (← planOf settings run inventory) target
  (Descriptor.write pipeline).mapError .descriptor

/-- Writes a file, with the directories above it. -/
def writeOutput (path text : String) : Task σ Failure Unit := do
  match (Path.parent? path).filter (!·.isEmpty) with
  | some parent => Task.makeDirectories (.makeDirectory parent) parent
  | none => pure ()
  Task.changeFiles (.writeFile path) (·.write path text.toUTF8 ·)

/-- Writes a descriptor to a file, or tells it. Only the top level starts repositories downstream, so
only it has to know their branches. -/
def generate (vars : Run.Variables) (exec : Executor (Machine σ)) (config : Option String)
    (options : GenerateOptions) : Task σ Failure String := do
  let settings ← loadSettings config
  let run ← loadRun vars
  let target ← Task.ofExcept id options.target
  let downstream ← if target.isNone then Repository.refreshAll exec settings.downstream else pure settings.downstream
  let inventory ← survey (options.root.getD settings.projectsDir)
  let text ← Task.ofExcept id (descriptorOf { settings with downstream } run inventory target)
  match options.output with
  | none => return text
  | some path =>
    writeOutput path text
    return ""

end CrossBuild.CommandLine
