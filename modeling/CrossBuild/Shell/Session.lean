import CrossBuild.FileTree.Change
import CrossBuild.Shell.Script

/-!
The state of a running script, and how words become the fields of a command.
-/

namespace CrossBuild.Shell

structure Session where
  files : FileTree
  now : Instant
  /-- The name of the script and its arguments. -/
  name : String
  args : List String
  vars : String → Option String
  input : ByteArray
  out : ByteArray
  err : ByteArray
  status : Int
  /-- Whether the script is over. -/
  ended : Bool
  /-- Whether a command that fails ends the script. -/
  strict : Bool
  /-- Milliseconds spent asleep. -/
  slept : Nat

namespace Session

def print (s : Session) (text : String) : Session := { s with out := s.out ++ text.toUTF8 }

def complain (s : Session) (text : String) (status : Int) : Session :=
  { s with err := s.err ++ text.toUTF8, status }

/-- Where a complaint says that it comes from. Lines are not counted: it is always the first. -/
def place (s : Session) : String := s.name ++ ": 1: "

def finish (s : Session) (status : Int) : Session := { s with status, ended := true }

/-- More milliseconds than anybody waits for. -/
def eternity : Nat := 10000000000

/-- The end of a script that goes on for too long to be followed, as one that never ends. -/
def giveUp (s : Session) : Session := { s.finish 255 with slept := s.slept + eternity }

/-- The session after a command, which may have ended the script by failing. -/
def afterCommand (s : Session) : Session := if s.strict && s.status != 0 then s.finish s.status else s

/-- The number that stands for the script's own process. -/
def processId : String := "4242"

/-- The value of a parameter that is one text. -/
def value (s : Session) (name : String) : String :=
  match name with
  | "@" | "*" => Text.join " " s.args
  | "#" => toString s.args.length
  | "?" => toString s.status
  | "$" => processId
  | "0" => s.name
  | name =>
    match Text.number? 10 name.toList with
    | some n => (s.args[n - 1]?).getD ""
    | none => (s.vars name).getD ""

/-- Joins the first of some fields to what is open so far. -/
structure Fields where
  closed : List String
  /-- The field that the next piece is added to, if there is one. -/
  current : Option String

def Fields.add (f : Fields) (text : String) : Fields := { f with current := some (f.current.getD "" ++ text) }

def Fields.close (f : Fields) : Fields :=
  match f.current with
  | some field => ⟨f.closed ++ [field], none⟩
  | none => f

/-- Adds several texts, each but the first in a field of its own. -/
def Fields.addEach (f : Fields) : List String → Fields
  | [] => f
  | [text] => f.add text
  | text :: rest => addEach (f.add text).close rest

def isFieldBreak (c : Char) : Bool := c == ' ' || c == '\t' || c == '\n'

/-- Adds a text that blanks cut into fields. -/
def Fields.addSplit (f : Fields) (text : String) : Fields :=
  let cs := text.toList
  let words := (Text.runs isFieldBreak cs).map String.ofList
  if words.isEmpty then (if cs.isEmpty then f else f.close)
  else
    let f := if cs.head?.any isFieldBreak then f.close else f
    let f := f.addEach words
    if cs.getLast?.any isFieldBreak then f.close else f

def addFragment (s : Session) (f : Fields) : Fragment → Fields
  | .text cs _ => f.add (.ofList cs)
  | .parameter "@" true => f.addEach s.args
  | .parameter name true => f.add (s.value name)
  | .parameter name false => f.addSplit (s.value name)

/-- The fields that a word becomes. -/
def fields (s : Session) (w : Word) : List String := ((w.foldl (addFragment s) ⟨[], none⟩).close).closed

/-- A word as one text. -/
def single (s : Session) (w : Word) : String :=
  .join (w.map fun (f : Fragment) => match f with | .text cs _ => .ofList cs | .parameter name _ => s.value name)

/-- A word as a pattern: characters, each with whether it can stand for others. -/
def patternOf (s : Session) (w : Word) : List (Char × Bool) :=
  w.flatMap fun (f : Fragment) =>
    match f with
    | .text cs quoted => cs.map (·, !quoted)
    | .parameter name quoted => (s.value name).toList.map (·, !quoted)

end Session

/-- Whether a text matches a pattern with stars and question marks. -/
def matchesPattern : List (Char × Bool) → List Char → Bool
  | [], cs => cs.isEmpty
  | (c, special) :: pattern, cs =>
    if special && c == '*' then (List.range (cs.length + 1)).any fun n => matchesPattern pattern (cs.drop n)
    else
      match cs with
      | d :: rest => (c == d || (special && c == '?')) && matchesPattern pattern rest
      | [] => false

end CrossBuild.Shell
