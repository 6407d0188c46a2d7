import CrossBuild.Text.Numeral

/-!
JSON values, with access to what they hold.
-/

namespace CrossBuild

/-- A JSON value. A number that is written without fraction and exponent is a whole number; of any
other only the kind is kept. -/
inductive Json where
  | null
  | bool (b : Bool)
  | int (n : Int)
  | fraction
  | text (s : String)
  | array (items : List Json)
  | object (entries : List (String × Json))
  deriving Repr, Inhabited

namespace Json

/-- The value of a key in an object; of several the last. -/
def get? (j : Json) (key : String) : Option Json :=
  match j with
  | .object entries => (entries.reverse.find? (·.1 == key)).map (·.2)
  | _ => none

def text? : Json → Option String
  | .text s => some s
  | _ => none

def bool? : Json → Option Bool
  | .bool b => some b
  | _ => none

def int? : Json → Option Int
  | .int n => some n
  | _ => none

/-- A whole number below a limit. -/
def natBelow? (limit : Nat) (j : Json) : Option Nat :=
  j.int?.bind fun n => if 0 ≤ n && n < limit then some n.toNat else none

def items? : Json → Option (List Json)
  | .array items => some items
  | _ => none

def entries? : Json → Option (List (String × Json))
  | .object entries => some entries
  | _ => none

/-- The items of an array, each read in one way. -/
def list? {α : Type} (read : Json → Option α) (j : Json) : Option (List α) :=
  j.items?.bind (·.mapM read)

def texts? (j : Json) : Option (List String) := j.list? text?

/-- The entries of an object, each value read in one way. -/
def map? {α : Type} (read : Json → Option α) (j : Json) : Option (List (String × α)) :=
  j.entries?.bind (·.mapM fun (key, value) => (read value).map (key, ·))

/-- A field that has to be there. -/
def field? {α : Type} (j : Json) (key : String) (read : Json → Option α) : Option α :=
  (j.get? key).bind read

/-- A field that has a standard value where it is missing. -/
def fieldOr? {α : Type} (j : Json) (key : String) (standard : α) (read : Json → Option α) : Option α :=
  match j.get? key with
  | none => some standard
  | some value => read value

/-- A field that may be missing or null. -/
def optional? {α : Type} (j : Json) (key : String) (read : Json → Option α) : Option (Option α) :=
  match j.get? key with
  | none | some .null => some none
  | some value => (read value).map some

/-- A text, or null where there is none. -/
def ofText? : Option String → Json
  | none => .null
  | some s => .text s

def ofTexts (items : List String) : Json := .array (items.map .text)

end Json

end CrossBuild
