import CrossBuild.CommandLine.Reading

/-!
What a command line asks for.
-/

namespace CrossBuild.CommandLine

structure GenerateOptions where
  /-- Whether the pipeline of one host and platform is asked for. -/
  child : Bool
  host : Option String
  platform : Option String
  root : Option String
  output : Option String
  deriving DecidableEq, Repr

/-- Where a job hands bundles over. -/
structure StoreOptions where
  /-- The directory of the store. It goes before a bucket. -/
  storeDir : Option String
  bucket : Option String
  pipelineId : String
  workspace : String
  deriving DecidableEq, Repr

structure DownloadOptions where
  includes : List String
  excludes : List String
  /-- The parent pipeline. -/
  parent : Option String
  deriving DecidableEq, Repr

structure UploadOptions where
  stage : String
  job : String
  failed : Bool
  tag : Option String
  marker : Option String
  path : Option String
  deriving DecidableEq, Repr

inductive Action where
  | generate (options : GenerateOptions)
  | discover (root : Option String)
  | directive (text : Option String)
  | download (store : StoreOptions) (options : DownloadOptions)
  | upload (store : StoreOptions) (options : UploadOptions)
  deriving DecidableEq, Repr

structure Invocation where
  /-- The file of the settings. -/
  config : Option String
  action : Action
  deriving DecidableEq, Repr

namespace Reading

variable (vars : Run.Variables) (r : Reading)

/-- The value of an option, from the environment if the command line has none. -/
def value? (p : Parameter) : Option String := (r.given.last? p).or (p.fallback? vars)

def require (p : Parameter) : Except Stop String :=
  match r.value? vars p with
  | some value => .ok value
  | none => r.level.refuse (.missing p)

def generateOptions : GenerateOptions where
  child := r.given.has .child
  host := r.value? vars .host
  platform := r.value? vars .platform
  root := r.value? vars .root
  output := r.value? vars .output

def storeOptions : Except Stop StoreOptions := do
  return {
    storeDir := r.value? vars .storeDir
    bucket := r.value? vars .bucket
    pipelineId := ← r.require vars .pipelineId
    workspace := (r.value? vars .workspace).getD "." }

def downloadOptions : DownloadOptions where
  includes := r.given.all .includes
  excludes := r.given.all .excludes
  parent := r.value? vars .parent

/-- A marker and a path cannot be given together. -/
def uploadOptions : Except Stop UploadOptions := do
  if r.given.has .marker && r.given.has .path then r.level.refuse (.together .marker .path)
  return {
    stage := ← r.require vars .stage
    job := ← r.require vars .job
    failed := r.given.has .failed
    tag := r.value? vars .tag
    marker := r.value? vars .marker
    path := r.value? vars .path }

def action : Except Stop Action := do
  match r.level with
  | .generate => return .generate (r.generateOptions vars)
  | .discover => return .discover (r.value? vars .root)
  | .directive => return .directive r.given.operands.head?
  | .download => return .download (← r.storeOptions vars) (r.downloadOptions vars)
  | .upload => return .upload (← r.storeOptions vars) (← r.uploadOptions vars)
  | .top | .artifacts => r.level.refuse .missingCommand

end Reading

/-- What the words that follow the program's name ask for. -/
def Invocation.ofWords (vars : Run.Variables) (words : List String) : Except Stop Invocation := do
  let reading ← Reading.ofWords vars words
  return { config := reading.value? vars .config, action := ← reading.action vars }

end CrossBuild.CommandLine
