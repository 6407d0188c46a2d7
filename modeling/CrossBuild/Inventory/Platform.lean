import CrossBuild.Directive.Basic

/-!
Platforms are what a tree can be built for. A hardware platform may be a simulator; a platform of
either kind may be a host, on which the whole build can run.
-/

namespace CrossBuild

/-- The family of a build target: hardware description or software. -/
inductive Model where
  | hdl
  | rcc
  deriving DecidableEq, Repr

def Model.name : Model → String
  | .hdl => "hdl"
  | .rcc => "rcc"

/-- Whether a platform can run the build itself. -/
inductive Role where
  | host
  | cross
  deriving DecidableEq, Repr

def Role.name : Role → String
  | .host => "host"
  | .cross => "cross"

inductive PlatformKind where
  | hdl (role : Role) (simulator : Bool)
  | rcc (role : Role)
  deriving DecidableEq, Repr

/-- A build target. -/
structure Platform where
  name : String
  /-- The project that the platform belongs to. -/
  project : String
  kind : PlatformKind
  /-- The platforms that a directive links to this one. -/
  linked : NameSet
  deriving DecidableEq

namespace Platform

def model (p : Platform) : Model :=
  match p.kind with
  | .hdl .. => .hdl
  | .rcc _ => .rcc

def role (p : Platform) : Role :=
  match p.kind with
  | .hdl role _ => role
  | .rcc role => role

def isHost (p : Platform) : Bool := p.role == .host

def isSimulator (p : Platform) : Bool :=
  match p.kind with
  | .hdl _ simulator => simulator
  | .rcc _ => false

/-- Whether tests for the platform run on the machine that builds. -/
def testsLocally (p : Platform) : Bool := p.isHost || p.isSimulator

/-- The platform with what a directive links to it, as far as it is known. -/
def withLinks (p : Platform) (directive : Directive) (known : NameSet) : Platform :=
  { p with linked := ((directive.links? p.name).map (·.inter known)).getD ∅ }

end Platform

end CrossBuild
