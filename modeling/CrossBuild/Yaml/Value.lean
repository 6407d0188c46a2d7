import CrossBuild.Text.Basic

/-!
Values of a YAML document that is to be written: texts, lists and tables with texts as keys.
-/

namespace CrossBuild.Yaml

/-- A value to write. A table keeps its entries in the order in which they were made. -/
inductive Value where
  | text (s : String)
  | list (items : List Value)
  | table (entries : List (String × Value))
  deriving Repr, Inhabited

def Value.texts (items : List String) : Value := .list (items.map .text)

end CrossBuild.Yaml
