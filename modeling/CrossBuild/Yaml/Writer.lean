import CrossBuild.Yaml.Value
import CrossBuild.Yaml.Scalar

/-!
Documents in block style with two spaces of indentation. A list below a key stands at the key's own
depth. A key that is too long for one line is announced by a question mark.
-/

namespace CrossBuild.Yaml

/-- Starts a line at a depth. A block of lines that ends in a line break has started it already. -/
def startLine (depth : Nat) (out : String) : String :=
  let fresh := out.back?.any Scalar.isBreak
  (if fresh then out else out ++ "\n") ++ String.ofList (Scalar.spaces depth)

mutual

/-- Writes the value of an entry whose key and colon are written at a depth. -/
def putAfterKey (depth : Nat) (out : String) : Value → String
  | .text s => out ++ " " ++ Scalar.write (depth + 2) s
  | .list [] => out ++ " []"
  | .list (item :: items) => putItems depth out (item :: items)
  | .table [] => out ++ " \x7b\x7d"
  | .table (entry :: entries) => putEntries (depth + 2) false out (entry :: entries)

/-- Writes a value after a mark of one character at a depth. -/
def putAfterMark (depth : Nat) (out : String) : Value → String
  | .text s => out ++ " " ++ Scalar.write (depth + 2) s
  | .list [] => out ++ " []"
  | .list (item :: items) =>
    putItems (depth + 2) (putAfterMark (depth + 2) (out ++ " -") item) items
  | .table [] => out ++ " \x7b\x7d"
  | .table (entry :: entries) => putEntries (depth + 2) true (out ++ " ") (entry :: entries)

/-- Writes each item on a line of its own. -/
def putItems (depth : Nat) (out : String) : List Value → String
  | [] => out
  | item :: items => putItems depth (putAfterMark depth (startLine depth out ++ "-") item) items

/-- Writes entries, of which the first may go on the line that has begun. -/
def putEntries (depth : Nat) (onLine : Bool) (out : String) : List (String × Value) → String
  | [] => out
  | (key, value) :: entries =>
    let out := if onLine then out else startLine depth out
    let written := Scalar.write (depth + 2) key
    let out :=
      if Scalar.isShortKey key then putAfterKey depth (out ++ written ++ ":") value
      else putAfterMark depth (startLine depth (out ++ "? " ++ written) ++ ":") value
    putEntries depth false out entries

end

/-- A whole document. -/
def write : Value → String
  | .text s => startLine 0 (Scalar.write 2 s)
  | .list [] => "[]\n"
  | .list (item :: items) => startLine 0 (putItems 0 (putAfterMark 0 "-" item) items)
  | .table [] => "\x7b\x7d\n"
  | .table (entry :: entries) => startLine 0 (putEntries 0 true "" (entry :: entries))

end CrossBuild.Yaml
