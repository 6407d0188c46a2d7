import CrossBuild.SortedMap

/-!
The stages of pipelines. A catalog lists, for each of the three kinds of pipeline, stage names in order
with the role that each plays, so that names can differ between versions while the roles stay.
-/

namespace CrossBuild

inductive PipelineKind where
  /-- The pipeline that a run starts with: it builds the hosts and starts one child for each target. -/
  | host
  /-- A child that builds one software target. -/
  | rcc
  /-- A child that builds one hardware target. -/
  | hdl
  deriving DecidableEq, Repr

namespace PipelineKind

def all : List PipelineKind := [.host, .rcc, .hdl]

def name : PipelineKind → String
  | .host => "host"
  | .rcc => "rcc"
  | .hdl => "hdl"

def ofName? (s : String) : Option PipelineKind := all.find? (·.name == s)

end PipelineKind

/-- What the jobs of a stage do. -/
inductive StageRole where
  | prereqs
  | build
  | test
  | generateChildren
  | triggerChildren
  | buildPrimitivesCore
  | buildPrimitives
  | buildLibraries
  | buildPlatforms
  | buildAssemblies
  | buildSdcard
  | buildTests
  /-- A stage for jobs that are not generated. -/
  | extra
  deriving DecidableEq, Repr

namespace StageRole

def all : List StageRole :=
  [.prereqs, .build, .test, .generateChildren, .triggerChildren, .buildPrimitivesCore, .buildPrimitives,
    .buildLibraries, .buildPlatforms, .buildAssemblies, .buildSdcard, .buildTests, .extra]

def name : StageRole → String
  | .prereqs => "prereqs"
  | .build => "build"
  | .test => "test"
  | .generateChildren => "generate-children"
  | .triggerChildren => "trigger-children"
  | .buildPrimitivesCore => "build-primitives-core"
  | .buildPrimitives => "build-primitives"
  | .buildLibraries => "build-libraries"
  | .buildPlatforms => "build-platforms"
  | .buildAssemblies => "build-assemblies"
  | .buildSdcard => "build-sdcard"
  | .buildTests => "build-tests"
  | .extra => "extra"

def ofName? (s : String) : Option StageRole := all.find? (·.name == s)

end StageRole

/-- A stage of a catalog. -/
structure Stage where
  name : String
  role : StageRole
  deriving DecidableEq, Repr

/-- The stages of every kind of pipeline, in order. -/
structure Catalog where
  version : String
  host : List Stage
  rcc : List Stage
  hdl : List Stage
  deriving DecidableEq, Repr, Inhabited

/-- Why a catalog cannot be used. -/
inductive CatalogError where
  | empty (version : String) (kind : PipelineKind)
  | repeated (version : String) (kind : PipelineKind) (stage : String)
  deriving DecidableEq, Repr

def CatalogError.message : CatalogError → String
  | .empty version kind => "stage catalog " ++ version ++ ": " ++ kind.name ++ " stage list is empty"
  | .repeated version kind stage =>
    "stage catalog " ++ version ++ ": " ++ kind.name ++ " stage `" ++ stage ++ "` listed twice"

namespace Catalog

/-- Stages that are called as their roles are. -/
def named (roles : List StageRole) : List Stage := roles.map fun role => ⟨role.name, role⟩

def hostStages : List Stage := named [.prereqs, .build, .test, .generateChildren, .triggerChildren]

def rccStages : List Stage := named [.prereqs, .build, .test]

/-- The current stages. -/
def v2 : Catalog where
  version := "v2"
  host := hostStages
  rcc := rccStages
  hdl := named [.buildPrimitivesCore, .buildPrimitives, .buildLibraries, .buildPlatforms,
    .buildAssemblies, .buildSdcard, .buildTests, .test]

/-- The earlier stages, with a plural name and one stage for jobs that are not generated. -/
def v1 : Catalog where
  version := "v1"
  host := hostStages
  rcc := rccStages
  hdl := named [.buildPrimitivesCore, .buildPrimitives, .buildLibraries, .buildPlatforms,
    .buildAssemblies] ++ [⟨"build-assets-osp", .extra⟩, ⟨"build-sdcards", .buildSdcard⟩] ++
    named [.buildTests, .test]

def defaultVersion : String := "v2"

/-- The built-in catalog of a version. -/
def builtin? (version : String) : Option Catalog := [v1, v2].find? (·.version == version)

def stages (c : Catalog) : PipelineKind → List Stage
  | .host => c.host
  | .rcc => c.rcc
  | .hdl => c.hdl

def names (c : Catalog) (kind : PipelineKind) : List String := (c.stages kind).map (·.name)

/-- The name of the first stage with a role. -/
def stageFor? (c : Catalog) (kind : PipelineKind) (role : StageRole) : Option String :=
  ((c.stages kind).find? (·.role == role)).map (·.name)

/-- A stage and all that follow it; none if there is no such stage. -/
def fromStage (c : Catalog) (kind : PipelineKind) (stage : String) : List String :=
  (c.names kind).dropWhile (· != stage)

/-- The first name that stands before in its list. -/
def firstRepeated? : List String → List String → Option String
  | _, [] => none
  | seen, name :: rest => if name ∈ seen then some name else firstRepeated? (name :: seen) rest

def checkKind (c : Catalog) (kind : PipelineKind) : Except CatalogError Unit :=
  match c.names kind with
  | [] => .error (.empty c.version kind)
  | names =>
    match firstRepeated? [] names with
    | some stage => .error (.repeated c.version kind stage)
    | none => .ok ()

/-- A usable catalog has stages for each kind of pipeline and no stage name twice in a list. -/
def validate (c : Catalog) : Except CatalogError Unit :=
  PipelineKind.all.forM c.checkKind

end Catalog

end CrossBuild
