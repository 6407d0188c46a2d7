import CrossBuild.Yaml.Node

/-!
Reading YAML values as what a program expects: texts, lists, words of a set, tables with known fields.
An empty plain value is an empty text, an empty list, an empty table or nothing, as the place demands.
-/

namespace CrossBuild.Yaml.Node

/-- The text of a scalar, whatever it might otherwise mean. -/
def text? : Node → Option String
  | .scalar _ _ text => some text
  | _ => none

/-- Whether a value is missing. -/
def isMissing : Node → Bool
  | .scalar _ plain text => plain && text.isEmpty
  | _ => false

def isNullWord (s : String) : Bool := ["null", "Null", "NULL", "~"].contains s

/-- The items of a list. -/
def items? (n : Node) : Option (List Node) :=
  match n with
  | .sequence _ items => some items
  | n => if n.isMissing then some [] else none

def list? {α : Type} (read : Node → Option α) (n : Node) : Option (List α) := n.items?.bind (·.mapM read)

def texts? (n : Node) : Option (List String) := n.list? text?

/-- The entries of a table. -/
def entries? (n : Node) : Option (List (Node × Node)) :=
  match n with
  | .mapping _ entries => some entries
  | n => if n.isMissing then some [] else none

def nullTag : String := "tag:yaml.org,2002:null"

/-- A value that may be null. Only a plain scalar can be: one that is empty or a word for null, where a
tag, if there is one, has to say so. -/
def optional? {α : Type} (read : Node → Option α) (n : Node) : Option (Option α) :=
  match n with
  | .scalar (some tag) true text =>
    if tag != nullTag then (read n).map some
    else if isNullWord text then some none
    else none
  | .scalar none true text => if text.isEmpty || isNullWord text then some none else (read n).map some
  | n => (read n).map some

/-- A word of a set. A tag names the word itself, and then there is nothing else. -/
def word? (n : Node) : Option String :=
  match n with
  | .scalar none _ text => some text
  | .scalar (some tag) plain text =>
    if plain && (text.isEmpty || isNullWord text) then some ((Text.after? "!" tag).getD tag) else none
  | _ => none

/-- The entries of a table by key, where every key is a text. -/
def table? (n : Node) : Option (List (String × Node)) :=
  n.entries?.bind (·.mapM fun (key, value) => key.text?.map (·, value))

/-- The fields of a table, none of which may be given twice. Others may be there or not. -/
def fields? (known : List String) (othersAllowed : Bool) (n : Node) : Option (List (String × Node)) :=
  n.table?.bind fun entries =>
    let fields := entries.filter (fun entry => known.contains entry.1)
    if !othersAllowed && fields.length != entries.length then none
    else if (fields.map (·.1)).Nodup then some fields
    else none

/-- A field that has to be there. -/
def required? {α : Type} (fields : List (String × Node)) (key : String) (read : Node → Option α) : Option α :=
  (fields.find? (·.1 == key)).bind fun (_, value) => read value

/-- A field with a standard value. -/
def fieldOr? {α : Type} (fields : List (String × Node)) (key : String) (standard : α)
    (read : Node → Option α) : Option α :=
  match fields.find? (·.1 == key) with
  | some (_, value) => read value
  | none => some standard

end CrossBuild.Yaml.Node
