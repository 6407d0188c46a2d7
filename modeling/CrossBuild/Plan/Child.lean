import CrossBuild.Plan.Jobs

/-!
Pipelines that build one target from one host. A software target is prepared, built and tested as a
whole. For a hardware target each library of each project is a job of its own, components are tested,
and a target that is no simulator gets a card image for every software platform linked to it.
-/

namespace CrossBuild.Plan

/-- The child of a software target. -/
def softwareChild (p : Plan) (host : String) (target : Platform) : Except PlanError Pipeline := do
  let vars := [("Platform", target.name), ("HostPlatform", host)]
  let jobs ← p.stepJobs .rcc [host, target.name] (platformGlobs [host, target.name]) host [
    (.prereqs, p.settings.buildCommand none "prerequisites" vars),
    (.build, p.settings.buildCommand none "build" vars),
    (.test, p.settings.testCommand none target host)]
  p.pipelineOf .rcc jobs

/-- The role of the job that builds a library, unless the target has no use for it: platform libraries
matter only to the project that owns the target. -/
def libraryRole? (p : Plan) (project : Project) (library : Library) (target : Platform) :
    Option StageRole :=
  match library.kind with
  | .primitives => some (if project.name == p.settings.coreProject then .buildPrimitivesCore else .buildPrimitives)
  | .platforms => if project.name == target.project then some .buildPlatforms else none
  | .assemblies => some .buildAssemblies
  | .devices | .cards | .adapters | .components => some .buildLibraries

/-- The directory of a library. -/
def libraryDir (p : Plan) (project : Project) (library : Library) : String :=
  Path.join (Path.join p.settings.projectsDir project.name) library.path

/-- A job that does something with a library in the stage of some role. -/
def libraryJob (p : Plan) (host : String) (target : Platform) (project : Project) (library : Library)
    (role : StageRole) (build : Command) : Except PlanError Job :=
  match p.catalog.stageFor? .hdl role with
  | none => .error (.unbuildableLibrary project.name library.name library.kind .hdl)
  | some stage =>
    let name := jobName [stage, project.name, library.label, host, target.name]
    .ok (p.stagedJob .hdl stage name (platformGlobs [host, target.name]) build host)

/-- The variables that tell the build tool about a hardware target. -/
def hardwareVars (host : String) (target : Platform) : List (String × String) :=
  [("HdlPlatform", target.name), ("HostPlatform", host)]

/-- Builds a library and, if it can be tested, tests it. -/
def libraryJobs (p : Plan) (host : String) (target : Platform) (project : Project) (library : Library) :
    Except PlanError (List Job) := do
  match p.libraryRole? project library target with
  | none => return []
  | some role =>
    let dir := some (p.libraryDir project library)
    let vars := hardwareVars host target
    let job := p.libraryJob host target project library
    let build ← job role (p.settings.buildCommand dir "build" vars)
    if !library.isTestable then return [build]
    let buildTests ← job .buildTests (p.settings.buildCommand dir "build-tests" vars)
    let test ← job .test (p.settings.testCommand dir target host)
    return [build, buildTests, test]

/-- The jobs of all libraries. -/
def allLibraryJobs (p : Plan) (host : String) (target : Platform) :
    List (Project × Library) → Except PlanError (List Job)
  | [] => .ok []
  | (project, library) :: rest => do
    let jobs ← p.libraryJobs host target project library
    return jobs ++ (← p.allLibraryJobs host target rest)

/-- Every library of the tree with its project. -/
def librariesOf (i : Inventory) : List (Project × Library) :=
  i.projects.flatMap fun project => project.libraries.map (project, ·)

/-- The software platforms of the tree that are linked to a target. -/
def linkedSoftware (p : Plan) (target : Platform) : List String :=
  target.linked.keys.filter fun name =>
    (p.inventory.platform? name).any (fun platform => platform.model == .rcc)

/-- Writes a card image for each software platform linked to a target. -/
def cardJobs (p : Plan) (host : String) (target : Platform) : Except PlanError (List Job) := do
  if target.isSimulator then return []
  let stage ← p.stage .hdl .buildSdcard
  let dir := some (Path.join p.settings.projectsDir target.project)
  return (p.linkedSoftware target).map fun software =>
    let build := p.settings.buildCommand dir "sdcard"
      [("HdlPlatform", target.name), ("RccPlatform", software), ("HostPlatform", host)]
    p.stagedJob .hdl stage (jobName [stage, host, target.name, software])
      (platformGlobs [host, target.name, software]) build host

/-- The child of a hardware target. -/
def hardwareChild (p : Plan) (host : String) (target : Platform) : Except PlanError Pipeline := do
  let libraries ← p.allLibraryJobs host target (librariesOf p.inventory)
  let cards ← p.cardJobs host target
  p.pipelineOf .hdl (libraries ++ cards)

/-- The pipeline that builds a platform from a host. -/
def child (p : Plan) (host platform : String) : Except PlanError Pipeline :=
  match (p.inventory.platform? host).filter (·.isHost) with
  | none => .error (.notAHost host)
  | some _ =>
    match p.inventory.platform? platform with
    | none => .error (.notDiscovered platform)
    | some target =>
      let target := target.withLinks p.directive p.inventory.platformNames
      match target.model with
      | .rcc => p.softwareChild host target
      | .hdl => p.hardwareChild host target

end CrossBuild.Plan
