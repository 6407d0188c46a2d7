import CrossBuild.Shell.Quote

/-!
Commands as values: the words to run, where, and which exit codes count as success; what a finished
command leaves; and the ways in which running one fails.
-/

namespace CrossBuild

/-- A command to run. -/
structure Command where
  /-- The program followed by its arguments. -/
  argv : List String
  /-- The directory to run in, if not the current one. -/
  cwd : Option String
  /-- The exit codes that count as success. -/
  expected : List Int
  deriving DecidableEq, Repr

namespace Command

/-- A command that runs where it is called and has to exit with 0. -/
def ofArgv (argv : List String) : Command := ⟨argv, none, [0]⟩

/-- The command with more arguments. -/
def withArgs (c : Command) (args : List String) : Command := { c with argv := c.argv ++ args }

def withArg (c : Command) (arg : String) : Command := c.withArgs [arg]

def inDirectory (c : Command) (dir : String) : Command := { c with cwd := some dir }

def expecting (c : Command) (codes : List Int) : Command := { c with expected := codes }

def program? (c : Command) : Option String := c.argv.head?

def accepts (c : Command) (exitCode : Int) : Bool := c.expected.contains exitCode

/-- The command as one line of a shell script. -/
def toShell (c : Command) : String :=
  match c.cwd with
  | none => Shell.line c.argv
  | some dir => "(cd " ++ Shell.quote dir ++ " && " ++ Shell.line c.argv ++ ")"

/-- The words of the command with spaces between them, as messages show it. -/
def display (c : Command) : String := Text.join " " c.argv

/-- What a finished command leaves. -/
structure Output where
  exitCode : Int
  stdout : String
  stderr : String
  deriving DecidableEq, Repr, Inhabited

/-- A command that succeeds and says nothing. -/
def Output.silent : Output := ⟨0, "", ""⟩

end Command

/-- Why running a command failed. -/
inductive ExecError where
  | emptyArgv
  | spawn (program : String)
  | timeout (command : String) (seconds : Nat)
  | unexpectedExit (command : String) (exitCode : Int) (expected : List Int) (stderr : String)
  deriving DecidableEq, Repr

/-- Exit codes in brackets with commas between them. -/
def ExecError.codeList (codes : List Int) : String :=
  "[" ++ Text.join ", " (codes.map fun code => toString code) ++ "]"

def ExecError.message : ExecError → String
  | .emptyArgv => "command has empty argv"
  | .spawn program => "failed to spawn `" ++ program ++ "`"
  | .timeout command seconds => "`" ++ command ++ "` timed out after " ++ toString seconds ++ " seconds"
  | .unexpectedExit command exitCode expected stderr =>
    "`" ++ command ++ "` exited with " ++ toString exitCode ++ ", expected one of " ++
      codeList expected ++ ": " ++ stderr

/-- Output of a command, or an error if the exit code is none that it expects. -/
def Command.check (c : Command) (out : Command.Output) : Except ExecError Command.Output :=
  if c.accepts out.exitCode then .ok out
  else .error (.unexpectedExit c.display out.exitCode c.expected out.stderr)

/-- Something that runs commands and changes a state by it. -/
abbrev Executor (σ : Type) := Command → StateM σ (Except ExecError Command.Output)

/-- Runs a command and checks its exit code. -/
def Executor.runChecked {σ : Type} (run : Executor σ) (c : Command) :
    StateM σ (Except ExecError Command.Output) := do
  match ← run c with
  | .ok out => return c.check out
  | .error e => return .error e

end CrossBuild
