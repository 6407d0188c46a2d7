import CrossBuild.Bundle.Filter
import CrossBuild.Handoff.Error
import CrossBuild.Inventory.Platform
import CrossBuild.Settings.Basic

/-!
Scripts of jobs. A job fetches what earlier stages made, notes the time, runs its build command, notes
success and stores what it made. If the note of success is missing afterwards, what is there is stored
as the bundle of a failed job.
-/

namespace CrossBuild

/-- The script of a job and what follows it in any case. -/
structure JobScript where
  script : List String
  afterScript : List String
  deriving DecidableEq, Repr

namespace Settings

/-- The generator, told which settings to use if they were read from a file. -/
def generatorCommand (s : Settings) : Command :=
  .ofArgv (s.generator :: match s.source with | some path => ["--config", path] | none => [])

/-- The build tool with a goal and variables, in some directory. -/
def buildCommand (s : Settings) (dir : Option String) (goal : String) (vars : List (String × String)) :
    Command :=
  .ofArgv (s.buildTool :: (match dir with | some dir => ["-C", dir] | none => []) ++ [goal] ++
    vars.map fun (key, value) => key ++ "=" ++ value)

/-- Tests of a platform: on the building machine where that is possible, else on a remote one. -/
def testCommand (s : Settings) (dir : Option String) (target : Platform) (host : String) : Command :=
  let platformVar := match target.model with | .hdl => "HdlPlatform" | .rcc => "Platform"
  let own := (platformVar, target.name)
  s.buildCommand dir "test" <|
    if target.testsLocally then [own]
    else [own, ("HostPlatform", host), ("RemoteTarget", target.name)]

/-- Writes the descriptor of a child to a file. -/
def generateChildCommand (s : Settings) (host platform output : String) : Command :=
  s.generatorCommand.withArgs
    ["generate", "--child", "--host", host, "--platform", platform, "--output", output]

/-- Where the descriptor of a child is written. -/
def childDescriptor (s : Settings) (host platform : String) : String :=
  s.descriptorDir ++ "/" ++ host ++ "-" ++ platform ++ ".yml"

/-- An option repeated for each of its values. -/
def repeated (option : String) (values : List String) : List String :=
  values.flatMap fun value => [option, value]

def downloadCommand (s : Settings) (includes excludes : List String) : Command :=
  s.generatorCommand.withArgs
    (["artifacts", "download"] ++ repeated "--include" includes ++ repeated "--exclude" excludes)

def uploadCommand (s : Settings) (stage job : String) (failed : Bool) : Command :=
  s.generatorCommand.withArgs
    (["artifacts", "upload", "--stage", stage, "--job", job] ++
      if failed then ["--failed", "--tag", BundleTag.failedJob.name]
      else ["--tag", BundleTag.successfulJob.name])

/-- The script of a job around its build command. The later stages are the job's own and all that
follow; their bundles are not fetched. -/
def stagedScript (s : Settings) (stage job : String) (includes laterStages : List String)
    (build : Command) : JobScript where
  script := [
    (s.downloadCommand includes (laterStages.map KeyFilter.stageGlob)).toShell,
    "touch " ++ Shell.quote Handoff.startMarker,
    build.toShell,
    "touch " ++ Shell.quote Handoff.successMarker,
    (s.uploadCommand stage job false).toShell]
  afterScript := [
    "if [ ! -f " ++ Shell.quote Handoff.successMarker ++ " ]; then " ++
      (s.uploadCommand stage job true).toShell ++ "; fi"]

end Settings

/-- Globs for the bundles of jobs whose names end in one of some platforms. -/
def platformGlobs (platforms : List String) : List String :=
  platforms.map fun platform => "*" ++ platform ++ BundleKey.extension

end CrossBuild
