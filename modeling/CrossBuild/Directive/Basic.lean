import CrossBuild.SortedMap
import CrossBuild.Text.Basic

/-!
Directives select the platforms of a run and say which belong together. A directive is a list of
groups between blanks. A group is a list of names between commas, or two such lists with a colon
between them; the colon links every name on its left with every name on its right, both ways.
-/

namespace CrossBuild

/-- What a group without a colon does to links that its names already have. -/
inductive ColonlessRule where
  /-- The names lose the links they have. -/
  | reset
  /-- The names keep the links they have. -/
  | merge
  deriving DecidableEq, Repr, Inhabited

inductive DirectiveError where
  | tooManyColons (group : String)
  | emptyItem (group : String)
  deriving DecidableEq, Repr

def DirectiveError.message : DirectiveError → String
  | .tooManyColons group => "directive group `" ++ group ++ "` has more than one `:`"
  | .emptyItem group => "directive group `" ++ group ++ "` contains an empty platform name"

/-- For every named platform, the platforms it is linked to. -/
structure Directive where
  links : SortedMap String NameSet
  deriving DecidableEq, Inhabited

namespace Directive

/-- One group of a directive. -/
inductive Group where
  | alone (names : List String)
  | linked (left right : List String)
  deriving DecidableEq, Repr

/-- The names between commas, none of which may be empty. -/
def names? (side : List Char) : Option (List String) :=
  let items := Text.pieces (· == ',') side
  if items.any (·.isEmpty) then none else some (items.map String.ofList)

/-- Reads one group. More than one colon is reported before an empty name. -/
def Group.ofText (text : String) : Except DirectiveError Group :=
  match Text.pieces (· == ':') text.toList with
  | [side] =>
    match names? side with
    | some names => .ok (.alone names)
    | none => .error (.emptyItem text)
  | [left, right] =>
    match names? left, names? right with
    | some l, some r => .ok (.linked l r)
    | _, _ => .error (.emptyItem text)
  | _ => .error (.tooManyColons text)

/-- Makes sure that a name is present. -/
def addName (rule : ColonlessRule) (d : Directive) (name : String) : Directive :=
  match rule with
  | .reset => ⟨d.links.insert name ∅⟩
  | .merge => ⟨d.links.update name (fun old => old.getD ∅)⟩

/-- Adds one link from `a` to `b`. -/
def addEdge (d : Directive) (a b : String) : Directive :=
  ⟨d.links.update a (fun old => (old.getD ∅).add b)⟩

/-- Links two names both ways. -/
def addLink (d : Directive) (a b : String) : Directive :=
  (d.addEdge a b).addEdge b a

/-- The directive after one more group. -/
def addGroup (rule : ColonlessRule) (d : Directive) : Group → Directive
  | .alone names => names.foldl (addName rule) d
  | .linked left right => left.foldl (fun d l => right.foldl (fun d r => d.addLink l r) d) d

/-- The groups of a text in order, or the error of the first bad one. -/
def groups (text : String) : Except DirectiveError (List Group) :=
  (Text.words text).mapM Group.ofText

/-- Reads a directive. -/
def parse (rule : ColonlessRule) (text : String) : Except DirectiveError Directive := do
  return (← groups text).foldl (addGroup rule) ⟨∅⟩

/-- Whether the directive names a platform. -/
def contains (d : Directive) (name : String) : Bool := d.links.contains name

/-- What a named platform is linked to. -/
def links? (d : Directive) (name : String) : Option NameSet := d.links.get? name

/-- The named platforms in code-point order. -/
def platforms (d : Directive) : List String := d.links.keys

def isEmpty (d : Directive) : Bool := d.links.isEmpty

end Directive

end CrossBuild
