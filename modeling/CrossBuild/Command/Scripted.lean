import CrossBuild.Command.Basic

/-!
An executor that answers from a list of rules and keeps a record of what it was asked to run.
-/

namespace CrossBuild.Command

/-- The answer to every command that starts with some words. -/
structure Rule where
  start : List String
  output : Output
  deriving DecidableEq, Repr

/-- The answer of the last rule that fits; where none does, success without output. -/
def answer (rules : List Rule) (argv : List String) : Output :=
  match rules.reverse.find? (fun rule => rule.start.isPrefixOf argv) with
  | some rule => rule.output
  | none => .silent

/-- Answers by rules and records each command. -/
def scripted (rules : List Rule) : Executor (List Command) := fun c => do
  modify (· ++ [c])
  return .ok (answer rules c.argv)

end CrossBuild.Command
