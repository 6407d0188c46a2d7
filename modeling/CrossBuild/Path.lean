import CrossBuild.Text.Basic

/-!
Paths as texts with slashes. A path is read as components: repeated slashes, a slash at the end and
inner `.` do not count, a leading `.` does. The text itself is kept, because messages show it.
-/

namespace CrossBuild.Path

/-- One component of a path. -/
inductive Component where
  | root
  | here
  | up
  | name (s : String)
  deriving DecidableEq, Repr

/-- A path cut into what stands at its start (a slash, a dot or nothing) and the pieces between the
slashes that follow. -/
structure Cut where
  lead : List Char
  pieces : List (List Char)

def cut (path : String) : Cut :=
  match path.toList with
  | '/' :: body => ⟨['/'], Text.pieces (· == '/') body⟩
  | ['.'] => ⟨['.'], []⟩
  | '.' :: '/' :: body => ⟨['.'], Text.pieces (· == '/') ('/' :: body)⟩
  | body => ⟨[], Text.pieces (· == '/') body⟩

def Cut.text (c : Cut) : String :=
  String.ofList c.lead ++ Text.join "/" (c.pieces.map String.ofList)

/-- Whether a piece between slashes is no component of its own. -/
def isIdle (piece : List Char) : Bool := piece == [] || piece == ['.']

def leadComponents (lead : List Char) : List Component :=
  match lead with
  | ['/'] => [.root]
  | ['.'] => [.here]
  | _ => []

def ofPiece (piece : List Char) : Component :=
  if piece == ['.', '.'] then .up else .name (String.ofList piece)

def components (path : String) : List Component :=
  let c := cut path
  leadComponents c.lead ++ (c.pieces.filter (fun piece => !isIdle piece)).map ofPiece

/-- Whether two texts are the same path. -/
def same (a b : String) : Bool := components a == components b

def isAbsolute (path : String) : Bool := path.toList.head? == some '/'

/-- Whether every component is a plain name. -/
def isPlain (path : String) : Bool :=
  (components path).all fun c => match c with | .name _ => true | _ => false

/-- One path below another; an absolute one stands for itself. -/
def join (base path : String) : String :=
  if isAbsolute path then path
  else if base.toList.getLast?.any (· != '/') then base ++ "/" ++ path
  else base ++ path

def Cut.trimEnd (c : Cut) : Cut :=
  { c with pieces := (c.pieces.reverse.dropWhile isIdle).reverse }

/-- The path without its last component, if that is not the root. -/
def parent? (path : String) : Option String :=
  let c := (cut path).trimEnd
  match c.pieces, c.lead with
  | [], ['.'] => some ""
  | [], _ => none
  | pieces, lead => some (Cut.trimEnd ⟨lead, pieces.dropLast⟩).text

/-- The paths above a path, from a number of steps up. -/
def ancestorsWithin : Nat → String → List String
  | 0, _ => []
  | n + 1, path =>
    match parent? path with
    | none => []
    | some above => if above.isEmpty then [] else ancestorsWithin n above ++ [above]

/-- The paths above a path, the shortest first. -/
def ancestors (path : String) : List String := ancestorsWithin path.length path

/-- Drops idle pieces and then as many others as there are components to drop. -/
def dropPieces : Nat → List (List Char) → List (List Char)
  | 0, pieces => pieces.dropWhile isIdle
  | n + 1, pieces => dropPieces n ((pieces.dropWhile isIdle).drop 1)

/-- What is left of a path below another one that it starts with, component by component. -/
def below? (base path : String) : Option String :=
  let b := components base
  let p := components path
  let c := (cut path).trimEnd
  if !b.isPrefixOf p then none
  else if b.isEmpty then some c.text
  else
    let led := (leadComponents c.lead).length
    some (Cut.text ⟨[], dropPieces (b.length - led) c.pieces⟩)

end CrossBuild.Path
