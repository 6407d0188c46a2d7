import CrossBuild.FileTree.Change

/-!
The machine that a job runs on: its files, the time and what a service keeps that the job talks to.
Tasks change it and can fail; what a failed task has changed stays changed.
-/

namespace CrossBuild

structure Machine (σ : Type) where
  files : FileTree
  now : Instant
  /-- The state of the service. -/
  service : σ

/-- Work on a machine. -/
abbrev Task (σ ε α : Type) := ExceptT ε (StateM (Machine σ)) α

namespace Task

variable {σ ε ε' α : Type}

/-- Fails with what `wrap` makes of the error, if there is one. -/
def ofExcept (wrap : ε' → ε) : Except ε' α → Task σ ε α
  | .ok a => pure a
  | .error e => throw (wrap e)

/-- Changes the files at the present time, or leaves them as they are and fails. -/
def changeFiles (wrap : FileFault → ε) (f : FileTree → Instant → Except FileFault FileTree) : Task σ ε Unit := do
  let machine ← get
  match f machine.files machine.now with
  | .ok files => set { machine with files }
  | .error fault => throw (wrap fault)

/-- Makes a directory and those above it. -/
def makeDirectories (wrap : FileFault → ε) (path : String) : Task σ ε Unit := do
  let machine ← get
  let (files, fault?) := machine.files.makeDirectories path machine.now
  set { machine with files }
  match fault? with
  | none => pure ()
  | some fault => throw (wrap fault)

/-- The same task with its errors put into wider ones. -/
def widen (wrap : ε' → ε) (task : Task σ ε' α) : Task σ ε α :=
  fun machine =>
    match task machine with
    | (.ok a, machine) => (.ok a, machine)
    | (.error e, machine) => (.error (wrap e), machine)

end Task

end CrossBuild
