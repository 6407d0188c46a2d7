import CrossBuild.Run

/-!
What a command line can say: which commands there are, which stand below which, and the options of
each. Some options have a variable of the environment to fall back on.
-/

namespace CrossBuild.CommandLine

def programName : String := "pipegen"

def programVersion : String := "0.3.1"

/-- What an option takes. -/
inductive Takes where
  | nothing
  | text
  /-- A path, which cannot be empty. -/
  | path
  /-- A text each time that it is given. -/
  | texts
  deriving DecidableEq, Repr

/-- The options of all commands. -/
inductive Parameter where
  | help
  | version
  | verbose
  | json
  | config
  | child
  | host
  | platform
  | root
  | output
  | storeDir
  | bucket
  | pipelineId
  | workspace
  | includes
  | excludes
  | parent
  | stage
  | job
  | failed
  | tag
  | marker
  | path
  deriving DecidableEq, Repr

namespace Parameter

/-- The name, which follows two dashes. -/
def name : Parameter → String
  | .help => "help"
  | .version => "version"
  | .verbose => "verbose"
  | .json => "json"
  | .config => "config"
  | .child => "child"
  | .host => "host"
  | .platform => "platform"
  | .root => "root"
  | .output => "output"
  | .storeDir => "store-dir"
  | .bucket => "bucket"
  | .pipelineId => "pipeline-id"
  | .workspace => "workspace"
  | .includes => "include"
  | .excludes => "exclude"
  | .parent => "upstream"
  | .stage => "stage"
  | .job => "job"
  | .failed => "failed"
  | .tag => "tag"
  | .marker => "marker"
  | .path => "path"

/-- The letter, which follows one dash. -/
def letter? : Parameter → Option Char
  | .help => some 'h'
  | .version => some 'V'
  | .verbose => some 'v'
  | .output => some 'o'
  | _ => none

def takes : Parameter → Takes
  | .help | .version | .verbose | .json | .child | .failed => .nothing
  | .config | .root | .output | .storeDir | .workspace | .marker | .path => .path
  | .includes | .excludes => .texts
  | .host | .platform | .bucket | .pipelineId | .parent | .stage | .job | .tag => .text

/-- The variable that stands for the option where it is not given. -/
def variableName? : Parameter → Option String
  | .config => some "PIPEGEN_CONFIG"
  | .storeDir => some "PIPEGEN_STORE_DIR"
  | .bucket => some "PIPEGEN_BUCKET"
  | .pipelineId => some RunVariable.pipelineId.name
  | .parent => some RunVariable.parentPipelineId.name
  | _ => none

/-- What the environment says in place of the option. -/
def fallback? (vars : Run.Variables) (p : Parameter) : Option String := p.variableName?.bind vars

end Parameter

/-- A command, or what stands above all commands. -/
inductive Level where
  | top
  | generate
  | discover
  | directive
  | artifacts
  | download
  | upload
  deriving DecidableEq, Repr

namespace Level

def name : Level → String
  | .top => programName
  | .generate => "generate"
  | .discover => "discover"
  | .directive => "directive"
  | .artifacts => "artifacts"
  | .download => "download"
  | .upload => "upload"

/-- The commands right below. If there are any, one has to be given. -/
def below : Level → List Level
  | .top => [.generate, .discover, .directive, .artifacts]
  | .artifacts => [.download, .upload]
  | _ => []

/-- The number of words besides options that can be given. -/
def operandLimit : Level → Nat
  | .directive => 1
  | _ => 0

/-- The options that only this level has. -/
def ownOptions : Level → List Parameter
  | .top => [.version]
  | .generate => [.child, .host, .platform, .root, .output]
  | .discover => [.root]
  | .directive => []
  | .artifacts => [.storeDir, .bucket, .pipelineId, .workspace]
  | .download => [.includes, .excludes, .parent]
  | .upload => [.stage, .job, .failed, .tag, .marker, .path]

/-- The options that every level has. -/
def sharedOptions : List Parameter := [.verbose, .json, .config, .help]

def options (level : Level) : List Parameter := level.ownOptions ++ sharedOptions

def optionNamed? (level : Level) (name : String) : Option Parameter :=
  level.options.find? (·.name == name)

def optionLettered? (level : Level) (letter : Char) : Option Parameter :=
  level.options.find? (·.letter? == some letter)

def command? (level : Level) (name : String) : Option Level := level.below.find? (·.name == name)

end Level

end CrossBuild.CommandLine
