import CrossBuild.FileTree.Resolve
import CrossBuild.Inventory.Basic

/-!
Finding projects, libraries and platforms in a tree of files. What a directory is shows in the files
that it holds: a project has a `Project.mk`, a hardware library or platform a `Makefile`, a software
platform a file with its own name and `.mk`, a component library a directory `specs`.
-/

namespace CrossBuild

inductive SurveyError where
  | rootNotFound (path : String)
  /-- A directory that is looked through does not let its entries be listed. -/
  | unreadable (path : String)
  deriving DecidableEq, Repr

def SurveyError.message : SurveyError → String
  | .rootNotFound path => "projects root does not exist: " ++ path
  | .unreadable path => "io error at " ++ path

namespace Inventory

/-- The directories right below a path, sorted by name; none if there is no such directory. Links to
directories count. -/
def subdirectories (t : FileTree) (path : String) : List String :=
  match t.place path with
  | .error _ => []
  | .ok place => ((t.children place).map (·.1)).filter fun name => t.isDirectory (Path.join path name)

def roleIn (t : FileTree) (dir name : String) : Role :=
  if t.isFile (Path.join dir (name ++ "-check.sh")) then .host else .cross

/-- The hardware platform in a directory. -/
def hdlPlatform? (t : FileTree) (project dir name : String) : Option Platform :=
  if t.isFile (Path.join dir "Makefile") then
    some ⟨name, project, .hdl (roleIn t dir name) (t.isFile (Path.join dir ("runSimExec." ++ name))), ∅⟩
  else none

/-- The software platform in a directory. -/
def rccPlatform? (t : FileTree) (project dir name : String) : Option Platform :=
  if t.isFile (Path.join dir (name ++ ".mk")) then some ⟨name, project, .rcc (roleIn t dir name), ∅⟩
  else none

/-- What is found in the directories right below a path. -/
def foundBelow {α : Type} (t : FileTree) (path : String) (find? : String → String → Option α) : List α :=
  (subdirectories t path).filterMap fun name => find? (Path.join path name) name

/-- The platforms of a project, hardware first. -/
def projectPlatforms (t : FileTree) (dir project : String) : List Platform :=
  foundBelow t (Path.join (Path.join dir "hdl") "platforms") (hdlPlatform? t project) ++
    foundBelow t (Path.join (Path.join dir "rcc") "platforms") (rccPlatform? t project)

def hdlLibrary? (t : FileTree) (dir name : String) : Option Library :=
  match LibraryKind.ofName? name with
  | some kind =>
    if kind.isHdl && t.isFile (Path.join dir "Makefile") then some ⟨name, kind, Path.join "hdl" name⟩
    else none
  | none => none

def isComponentLibrary (t : FileTree) (dir : String) : Bool := t.isDirectory (Path.join dir "specs")

def componentLibrary? (t : FileTree) (dir name : String) : Option Library :=
  if isComponentLibrary t dir then some ⟨name, .components, Path.join "components" name⟩ else none

/-- The component libraries of a project: the directory `components` itself or those in it. -/
def componentLibraries (t : FileTree) (dir : String) : List Library :=
  let components := Path.join dir "components"
  if isComponentLibrary t components then [⟨"components", .components, "components"⟩]
  else foundBelow t components (componentLibrary? t)

def projectLibraries (t : FileTree) (dir : String) : List Library :=
  foundBelow t (Path.join dir "hdl") (hdlLibrary? t) ++ componentLibraries t dir

/-- The names of the projects below a path. -/
def projectNames (t : FileTree) (root : String) : List String :=
  (subdirectories t root).filter fun name => t.isFile (Path.join (Path.join root name) "Project.mk")

/-- Where a survey looks for directories: below the root, then below what a project may have. In a project
whose components are one library it looks no further there. -/
def lookedThrough (t : FileTree) (root : String) : List String :=
  root :: (projectNames t root).flatMap fun name =>
    let dir := Path.join root name
    let components := Path.join dir "components"
    [Path.join (Path.join dir "hdl") "platforms", Path.join (Path.join dir "rcc") "platforms", Path.join dir "hdl"] ++
      if isComponentLibrary t components then [] else [components]

/-- The first directory that stands in the way of a survey. -/
def unreadable? (t : FileTree) (root : String) : Option String :=
  (lookedThrough t root).find? fun path => t.isDirectory path && !t.canList path

/-- Platforms less those whose name an earlier one has. -/
def firstOfEachName (platforms : List Platform) : List Platform :=
  platforms.foldl (fun kept p => if kept.any (·.name == p.name) then kept else kept ++ [p]) []

/-- What a tree holds below a path. Of platforms with one name that of the first project stays. -/
def survey (t : FileTree) (root : String) : Except SurveyError Inventory :=
  if !t.isDirectory root then .error (.rootNotFound root)
  else
    match unreadable? t root with
    | some path => .error (.unreadable path)
    | none =>
      let names := projectNames t root
      let platforms := firstOfEachName (names.flatMap fun name => projectPlatforms t (Path.join root name) name)
      .ok {
        projects := names.map fun name => ⟨name, projectLibraries t (Path.join root name)⟩
        platforms := platforms.mergeSort fun a b => a.name ≤ b.name }

end Inventory

end CrossBuild
