/-!
Projects and the libraries that they own.
-/

namespace CrossBuild

/-- What a library holds. All but components are hardware libraries. -/
inductive LibraryKind where
  | primitives
  | devices
  | cards
  | adapters
  | platforms
  | assemblies
  | components
  deriving DecidableEq, Repr

namespace LibraryKind

def all : List LibraryKind :=
  [.primitives, .devices, .cards, .adapters, .platforms, .assemblies, .components]

def name : LibraryKind → String
  | .primitives => "primitives"
  | .devices => "devices"
  | .cards => "cards"
  | .adapters => "adapters"
  | .platforms => "platforms"
  | .assemblies => "assemblies"
  | .components => "components"

def ofName? (s : String) : Option LibraryKind := all.find? (·.name == s)

def isHdl (k : LibraryKind) : Bool := k != .components

/-- Only component libraries carry unit tests. -/
def isTestable (k : LibraryKind) : Bool := k == .components

end LibraryKind

structure Library where
  name : String
  kind : LibraryKind
  /-- Where the library is, relative to its project. -/
  path : String
  deriving DecidableEq, Repr

structure Project where
  name : String
  libraries : List Library
  deriving DecidableEq, Repr

def Library.isTestable (l : Library) : Bool := l.kind.isTestable

def Project.library? (p : Project) (name : String) : Option Library :=
  p.libraries.find? (·.name == name)

end CrossBuild
