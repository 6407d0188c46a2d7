import CrossBuild.CommandLine.Generate
import CrossBuild.CommandLine.Handoff
import CrossBuild.Exchange.Handoff
import CrossBuild.Exchange.Inventory
import CrossBuild.Json.Writer

/-!
A call of the program, from its words to its outcome.
-/

namespace CrossBuild.CommandLine

variable {σ : Type}

/-- The inventory of the projects. -/
def discover (config root : Option String) : Task σ Failure Inventory := do
  let settings ← loadSettings config
  survey (root.getD settings.projectsDir)

/-- What a text says as a directive, or else the run's own directive. -/
def readDirective (vars : Run.Variables) (config text : Option String) : Task σ Failure Directive := do
  let settings ← loadSettings config
  match text with
  | some text => Task.ofExcept .directive (Directive.parse settings.colonlessGroups text)
  | none =>
    let run ← loadRun vars
    Task.ofExcept .runDirective (run.directive settings.colonlessGroups)

/-- A value as it is told. -/
def told (j : Json) : String := j.pretty ++ "\n"

/-- Does what is asked for and returns what there is to tell. -/
def perform (vars : Run.Variables) (exec : Executor (Machine σ)) (invocation : Invocation) : Task σ Failure String :=
  match invocation.action with
  | .generate options => generate vars exec invocation.config options
  | .discover root => return told (← discover invocation.config root).toJson
  | .directive text => return told (← readDirective vars invocation.config text).toJson
  | .download store options => return told (← download exec store options).toJson
  | .upload store options => return told (← upload exec store options).toJson

/-- Calls the program with the words that follow its name. -/
def call (vars : Run.Variables) (exec : Executor (Machine σ)) (words : List String) :
    StateM (Machine σ) Outcome := do
  match Invocation.ofWords vars words with
  | .error stop => return .ofStop stop
  | .ok invocation =>
    match ← (perform vars exec invocation).run with
    | .ok out => return .success out
    | .error failure => return .ofFailure failure

end CrossBuild.CommandLine
