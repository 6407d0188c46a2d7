import CrossBuild.Inventory.Platform
import CrossBuild.Inventory.Project
import CrossBuild.Path

/-!
An inventory holds the projects of a tree and the platforms that they define.
-/

namespace CrossBuild

structure Inventory where
  projects : List Project
  platforms : List Platform
  deriving DecidableEq, Inhabited

namespace Inventory

def platform? (i : Inventory) (name : String) : Option Platform :=
  i.platforms.find? (·.name == name)

def project? (i : Inventory) (name : String) : Option Project :=
  i.projects.find? (·.name == name)

def platformNames (i : Inventory) : NameSet := .ofList (i.platforms.map (·.name))

end Inventory

/-- The library's part of job names, one of a kind within its project: a component library that is not
the project's only one says so, lest it be taken for a hardware library of the same name. -/
def Library.label (l : Library) : String :=
  if l.kind == .components && !Path.same l.path "components" then "components-" ++ l.name else l.name

end CrossBuild
