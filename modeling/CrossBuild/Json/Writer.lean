import CrossBuild.Json.Basic

/-!
Writing JSON, on one line or with each item on a line of its own.
-/

namespace CrossBuild.Json

/-- A character inside a text. -/
def escape (c : Char) : List Char :=
  match c with
  | '"' => ['\\', '"']
  | '\\' => ['\\', '\\']
  | '\n' => ['\\', 'n']
  | '\r' => ['\\', 'r']
  | '\t' => ['\\', 't']
  | '\x08' => ['\\', 'b']
  | '\x0c' => ['\\', 'f']
  | c =>
    let n := c.toNat
    if n < 0x20 then ['\\', 'u', '0', '0', Text.lowerHexDigit (n / 16), Text.lowerHexDigit (n % 16)] else [c]

def quoted (s : String) : String := String.ofList ('"' :: s.toList.flatMap escape ++ ['"'])

/-- What stands between items: nothing, or a line break with spaces for each level. -/
structure Layout where
  pretty : Bool

def Layout.lineBreak (layout : Layout) (depth : Nat) : String :=
  if layout.pretty then String.ofList ('\n' :: List.replicate (2 * depth) ' ') else ""

mutual

/-- Appends a value to what is written. -/
def put (layout : Layout) (depth : Nat) (out : String) : Json → String
  | .null => out ++ "null"
  | .bool b => out ++ (if b then "true" else "false")
  | .int n => out ++ toString n
  | .fraction => out ++ "0.0"
  | .text s => out ++ quoted s
  | .array [] => out ++ "[]"
  | .array (item :: items) =>
    let out := put layout (depth + 1) (out ++ "[" ++ layout.lineBreak (depth + 1)) item
    putItems layout depth out items
  | .object [] => out ++ "\x7b\x7d"
  | .object ((key, value) :: entries) =>
    let out := out ++ "\x7b" ++ layout.lineBreak (depth + 1) ++ quoted key ++
      (if layout.pretty then ": " else ":")
    putEntries layout depth (put layout (depth + 1) out value) entries

def putItems (layout : Layout) (depth : Nat) (out : String) : List Json → String
  | [] => out ++ layout.lineBreak depth ++ "]"
  | item :: items =>
    let out := put layout (depth + 1) (out ++ "," ++ layout.lineBreak (depth + 1)) item
    putItems layout depth out items

def putEntries (layout : Layout) (depth : Nat) (out : String) : List (String × Json) → String
  | [] => out ++ layout.lineBreak depth ++ "\x7d"
  | (key, value) :: entries =>
    let out := out ++ "," ++ layout.lineBreak (depth + 1) ++ quoted key ++
      (if layout.pretty then ": " else ":")
    putEntries layout depth (put layout (depth + 1) out value) entries

end

/-- The value on one line. -/
def line (j : Json) : String := put ⟨false⟩ 0 "" j

/-- The value with one item on a line. -/
def pretty (j : Json) : String := put ⟨true⟩ 0 "" j

end CrossBuild.Json
