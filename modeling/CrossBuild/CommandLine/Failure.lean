import CrossBuild.CommandLine.Reading
import CrossBuild.Handoff.Error
import CrossBuild.Inventory.Survey
import CrossBuild.Pipeline.Descriptor
import CrossBuild.Plan.Selection
import CrossBuild.Settings.Basic

/-!
What a call of the program leaves: an exit code and what it says. A call that fails says what it was
about and then why.
-/

namespace CrossBuild.CommandLine

/-- Why what a command line asks for cannot be done. -/
inductive Failure where
  | settings (error : SettingsError)
  /-- The settings can be read, but their stages cannot be used. -/
  | stages (error : SettingsError)
  | run (error : RunError)
  /-- A child is asked for without its host or its platform. -/
  | namelessChild
  | survey (root : String) (error : SurveyError)
  /-- The directive of the command line. -/
  | directive (error : DirectiveError)
  /-- The directive of the run. -/
  | runDirective (error : RunError)
  | child (host platform : String) (error : PlanError)
  | topLevel (error : PlanError)
  | descriptor (error : DescriptorError)
  | makeDirectory (path : String) (fault : FileFault)
  | writeFile (path : String) (fault : FileFault)
  | openStore (path : String) (error : StoreError)
  | noStore
  | key (part : String) (fault : KeyFault)
  | download (error : HandoffError)
  | upload (job : String) (error : HandoffError)
  deriving DecidableEq, Repr

namespace Failure

def message : Failure → String
  | .settings _ => "Failed to load generator config"
  | .stages error => error.message
  | .run _ => "Failed to read pipeline context from the environment"
  | .namelessChild => "--child needs both --host and --platform"
  | .survey root _ => "Failed to discover projects under " ++ root
  | .directive _ => "Failed to parse directive"
  | .runDirective error => error.message
  | .child host platform _ => "Failed to build child pipeline " ++ host ++ ":" ++ platform
  | .topLevel _ => "Failed to build top-level pipeline"
  | .descriptor _ => "Failed to serialize pipeline"
  | .makeDirectory path _ => "Failed to create " ++ path
  | .writeFile path _ => "Failed to write " ++ path
  | .openStore path _ => "Failed to open artifact store at " ++ path
  | .noStore => "No artifact store configured: set --store-dir or --bucket"
  | .key .. => "Invalid bundle key"
  | .download _ => "Artifact download failed"
  | .upload job _ => "Artifact upload for " ++ job ++ " failed"

/-- What lies behind the message, where it does not say so itself. -/
def cause? : Failure → Option String
  | .settings error => some error.message
  | .run error => some error.message
  | .survey _ error => some error.message
  | .directive error => some error.message
  | .child _ _ error => some error.message
  | .topLevel error => some error.message
  | .descriptor error => some error.message
  | .makeDirectory .. | .writeFile .. => some "IO error"
  | .openStore _ error => some error.message
  | .key _ fault => some fault.reason
  | .download error => some error.message
  | .upload _ error => some error.message
  | .stages _ | .namelessChild | .runDirective _ | .noStore => none

end Failure

/-- What a call of the program leaves. -/
structure Outcome where
  exitCode : Nat
  out : String
  err : String
  deriving DecidableEq, Repr

namespace Outcome

def success (out : String) : Outcome := ⟨0, out, ""⟩

def ofFailure (failure : Failure) : Outcome :=
  let cause := match failure.cause? with
    | some cause => "\nCaused by:\n    " ++ cause ++ "\n"
    | none => ""
  ⟨1, "", "Error: " ++ failure.message ++ "\n" ++ cause⟩

end Outcome

/-- An option as help shows it. -/
def Parameter.helpLine (p : Parameter) : String :=
  let letter := match p.letter? with
    | some c => String.ofList ['-', c] ++ ", "
    | none => "    "
  let value := if p.takes == .nothing then "" else " <" ++ p.name.toUpper ++ ">"
  "  " ++ letter ++ p.display ++ value ++ "\n"

/-- How a command is called. -/
def Level.usage (level : Level) : String :=
  "Usage: " ++ level.name ++ " [OPTIONS]" ++ (if level.operandLimit == 0 then "" else " [TEXT]") ++
    (if level.below.isEmpty then "" else " <COMMAND>") ++ "\n"

def Level.helpText (level : Level) : String :=
  let commands := String.join (level.below.map fun next => "  " ++ next.name ++ "\n")
  level.usage ++ (if level.below.isEmpty then "" else "\nCommands:\n" ++ commands) ++
    "\nOptions:\n" ++ String.join (level.options.map (·.helpLine))

def Outcome.ofStop : Stop → Outcome
  | .version => .success (programName ++ " " ++ programVersion ++ "\n")
  | .help level => .success level.helpText
  | .usage level fault => ⟨2, "", "error: " ++ fault.message ++ "\n\n" ++ level.usage⟩

end CrossBuild.CommandLine
