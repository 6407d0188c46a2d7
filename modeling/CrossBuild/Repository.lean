import CrossBuild.Command.Basic

/-!
Repositories downstream, which build platforms that the tree does not carry. A run starts the branch
of such a repository that is named for the run's group and branch, where there is one.
-/

namespace CrossBuild

structure Repository where
  /-- The path of the repository's project in the CI service. -/
  project : String
  /-- Where to list its branches, if they are to be listed. -/
  url : Option String
  /-- The platforms that it builds. -/
  platforms : List String
  branches : List String
  deriving DecidableEq, Repr

namespace Repository

/-- The branch that is started where none is named for the run. -/
def fallbackBranch : String := "develop"

def provides (r : Repository) (platform : String) : Bool := r.platforms.contains platform

/-- The branch to start for a branch of a group. -/
def branchFor (r : Repository) (group branch : String) : String :=
  let wanted := group ++ "-" ++ branch
  if r.branches.contains wanted then wanted else fallbackBranch

/-- The branch that a line of a listing names in its second field. -/
def headOfLine? (line : String) : Option String :=
  ((Text.words line)[1]?).bind (Text.after? "refs/heads/")

/-- The branches of a listing. -/
def heads (listing : String) : List String := (Text.lines listing).filterMap headOfLine?

/-- The command that lists the branches at a place. -/
def listCommand (url : String) : Command := .ofArgv ["git", "ls-remote", "--heads", url]

/-- A repository with its branches listed anew; where that is not possible they stay as they are. -/
def refresh {σ : Type} (run : Executor σ) (r : Repository) : StateM σ Repository := do
  match r.url with
  | none => return r
  | some url =>
    match ← run.runChecked (listCommand url) with
    | .ok out => return { r with branches := heads out.stdout }
    | .error _ => return r

/-- Lists the branches of every repository that says where, in order. -/
def refreshAll {σ : Type} (run : Executor σ) : List Repository → StateM σ (List Repository)
  | [] => return []
  | r :: rest => do
    let r ← refresh run r
    return r :: (← refreshAll run rest)

end Repository

end CrossBuild
