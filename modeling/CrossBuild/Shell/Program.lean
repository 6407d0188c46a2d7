import CrossBuild.Shell.Session
import CrossBuild.Text.Pattern
import CrossBuild.Text.Utf8

/-!
The programs that scripts call for small jobs: printing, copying, editing lines, waiting and tests.
-/

namespace CrossBuild.Shell

/-- A program gets its arguments and changes the session. -/
abbrev Program := List String → Session → Session

namespace Program

def setStatus (status : Int) : Program := fun _ s => { s with status }

/-- The byte that up to three octal digits write, and what follows them. -/
def octalByte (cs : List Char) : Option (UInt8 × List Char) :=
  let digits := (cs.take 3).takeWhile fun c => '0' ≤ c && c ≤ '7'
  (Text.number? 8 digits).map fun n => ((n % 256).toUInt8, cs.drop digits.length)

/-- The byte that up to two hexadecimal digits write, and what follows them. -/
def hexByte (cs : List Char) : Option (UInt8 × List Char) :=
  let digits := (cs.take 2).takeWhile fun c => (Text.digitValue? 16 c).isSome
  (Text.number? 16 digits).map fun n => (n.toUInt8, cs.drop digits.length)

/-- The byte that a letter after a backslash stands for. -/
def escapeByte? (c : Char) : Option UInt8 :=
  ([('a', 7), ('b', 8), ('f', 12), ('n', 10), ('r', 13), ('t', 9), ('v', 11), ('\\', 92)].find? (·.1 == c)).map (·.2)

def pushChar (out : ByteArray) (c : Char) : ByteArray := out ++ (String.ofList [c]).toUTF8

/-- Text with its escapes replaced. -/
def unescape : Nat → List Char → ByteArray → ByteArray
  | 0, _, out | _, [], out => out
  | fuel + 1, '\\' :: c :: rest, out =>
    match escapeByte? c with
    | some b => unescape fuel rest (out.push b)
    | none =>
      match if c == 'x' then hexByte rest else octalByte (c :: rest) with
      | some (b, rest) => unescape fuel rest (out.push b)
      | none => unescape fuel rest (pushChar (out.push 92) c)
  | fuel + 1, c :: rest, out => unescape fuel rest (pushChar out c)

/-- One pass over a format: what it prints, the arguments that are left and whether it took any. -/
def format : Nat → List Char → List String → Bool → ByteArray → ByteArray × List String × Bool
  | 0, _, args, took, out | _, [], args, took, out => (out, args, took)
  | fuel + 1, '%' :: '%' :: rest, args, took, out => format fuel rest args took (out.push 37)
  | fuel + 1, '%' :: c :: rest, args, _, out =>
    let arg := args.headD (if c == 's' then "" else "0")
    let shown := if c == 'b' then unescape arg.length arg.toList .empty else arg.toUTF8
    format fuel rest (args.drop 1) true (out ++ shown)
  | fuel + 1, '\\' :: rest, args, took, out =>
    let escape := '\\' :: rest.take 3
    let shown := match rest with
      | c :: more =>
        match escapeByte? c with
        | some b => (ByteArray.empty.push b, more)
        | none =>
          match if c == 'x' then hexByte more else octalByte rest with
          | some (b, more) => (ByteArray.empty.push b, more)
          | none => (unescape 2 (escape.take 2) .empty, more)
      | [] => (ByteArray.empty.push 92, [])
    format fuel shown.2 args took (out ++ shown.1)
  | fuel + 1, c :: rest, args, took, out => format fuel rest args took (pushChar out c)

/-- Passes over a format until no arguments are left. -/
def formatAll (cs : List Char) : Nat → List String → ByteArray → ByteArray
  | 0, _, out => out
  | fuel + 1, args, out =>
    let (out, args, took) := format (cs.length + 1) cs args false out
    if took && !args.isEmpty then formatAll cs fuel args out else out

def printf : Program := fun args s =>
  match args with
  | [] => s.complain "printf: missing operand\nTry 'printf --help' for more information.\n" 1
  | text :: args => { s with out := formatAll text.toList (args.length + 1) args s.out, status := 0 }

/-- Prints its arguments; `escapes` says whether backslashes have a meaning. -/
def echo (escapes : Bool) : Program := fun args s =>
  let (ending, args) := match args with | "-n" :: args => ("", args) | args => ("\n", args)
  let text := Text.join " " args
  let shown := if escapes then unescape (text.length + 1) text.toList .empty else text.toUTF8
  { s with out := s.out ++ shown ++ ending.toUTF8, status := 0 }

def pwd : Program := fun _ s => { s.print ("/" ++ Text.join "/" s.files.current ++ "\n") with status := 0 }

/-- Sleeping times as decimals of seconds, minutes, hours or days, in milliseconds. -/
def sleepTime? (arg : String) : Option Nat := do
  let cs := arg.toList
  let unit := match cs.getLast? with | some 'm' => 60 | some 'h' => 3600 | some 'd' => 86400 | _ => 1
  let number := if ['s', 'm', 'h', 'd'].any (cs.getLast? == some ·) then cs.dropLast else cs
  let whole := number.takeWhile Char.isDigit
  let rest := number.drop whole.length
  let fraction ← match rest with
    | [] => some []
    | '.' :: digits => if digits.all Char.isDigit then some digits else none
    | _ => none
  let thousandths := (fraction ++ ['0', '0', '0']).take 3
  if whole.isEmpty && fraction.isEmpty then none
  else return (← Text.digitsValue? 10 (whole ++ thousandths)) * unit

def sleep : Program := fun args s =>
  let hint := "Try 'sleep --help' for more information.\n"
  let bad := args.filter fun arg => (sleepTime? arg).isNone
  if args.isEmpty then s.complain ("sleep: missing operand\n" ++ hint) 1
  else if bad.isEmpty then { s with slept := s.slept + (args.filterMap sleepTime?).foldl (· + ·) 0, status := 0 }
  else s.complain (.join (bad.map fun arg => "sleep: invalid time interval ‘" ++ arg ++ "’\n") ++ hint) 1

def lastName (path : String) : String :=
  match (Path.components path).getLast? with
  | some (.name name) => name
  | _ => ""

/-- The session after a change to its files, or after a complaint. -/
def changed (s : Session) (complaint : String) : Except FileFault FileTree → Session
  | .ok files => { s with files, status := 0 }
  | .error _ => s.complain (complaint ++ "\n") 1

def cp : Program := fun args s =>
  match args.filter fun arg => !Text.startsWith arg "-" with
  | [source, target] =>
    match s.files.file source, s.files.read source with
    | .ok f, .ok data =>
      let target := if s.files.isDirectory target then Path.join target (lastName source) else target
      changed s ("cp: cannot create regular file '" ++ target ++ "'")
        (s.files.update target (fun old => ⟨data, s.now, (old.map (·.mode)).getD f.mode⟩) s.now)
    | _, _ => s.complain ("cp: cannot stat '" ++ source ++ "': No such file or directory\n") 1
  | _ => s.complain "cp: missing file operand\nTry 'cp --help' for more information.\n" 1

def catOne (s : Session) (path : String) : Session :=
  if path == "-" then { s with out := s.out ++ s.input }
  else
    match s.files.read path with
    | .ok data => { s with out := s.out ++ data }
    | .error _ => s.complain ("cat: " ++ path ++ ": No such file or directory\n") 1

def cat : Program := fun args s => (if args.isEmpty then ["-"] else args).foldl catOne { s with status := 0 }

def touchOne (s : Session) (path : String) : Session :=
  let update := fun (old : Option File) =>
    match old with
    | some f => { f with modified := s.now }
    | none => ⟨.empty, s.now, FileTree.fileMode⟩
  match s.files.update path update s.now with
  | .ok files => { s with files }
  | .error _ =>
    match s.files.place path, s.files.isDirectory path with
    | .ok place, true => { s with files := s.files.changed place s.now }
    | _, _ => s.complain ("touch: cannot touch '" ++ path ++ "'\n") 1

def touch : Program := fun args s => args.foldl touchOne { s with status := 0 }

def mkdirOne (s : Session) (path : String) : Session :=
  let (files, fault?) := s.files.makeDirectories path s.now
  match fault? with
  | none => { s with files }
  | some _ => { s with files }.complain ("mkdir: cannot create directory '" ++ path ++ "'\n") 1

def mkdir : Program := fun args s =>
  (args.filter fun arg => !Text.startsWith arg "-").foldl mkdirOne { s with status := 0 }

def rmOne (force : Bool) (s : Session) (path : String) : Session :=
  match s.files.remove path s.now with
  | .ok files => { s with files }
  | .error _ => if force then s else s.complain ("rm: cannot remove '" ++ path ++ "'\n") 1

def rm : Program := fun args s =>
  (args.filter fun arg => !Text.startsWith arg "-").foldl
    (rmOne (args.any fun arg => arg == "-f" || arg == "-rf")) { s with status := 0 }

/-- The parts of a substitution such as `s#old#new#g`, in which a backslash keeps the next separator. -/
def partsBetween (separator : Char) : List Char → List (List Char)
  | [] => [[]]
  | '\\' :: c :: rest =>
    match partsBetween separator rest with
    | first :: others => ((if c == separator then [c] else ['\\', c]) ++ first) :: others
    | [] => []
  | c :: rest =>
    if c == separator then [] :: partsBetween separator rest
    else
      match partsBetween separator rest with
      | first :: others => (c :: first) :: others
      | [] => []

/-- What a substitution puts in the place of a match; an ampersand is the match itself. -/
def replacement (new matched : List Char) : List Char :=
  match new with
  | [] => []
  | '\\' :: c :: rest => c :: replacement rest matched
  | '&' :: rest => matched ++ replacement rest matched
  | c :: rest => c :: replacement rest matched

/-- The edit of a line that a substitution asks for. -/
def substitution? (script : String) : Option (List Char → List Char) := do
  match script.toList with
  | 's' :: separator :: rest =>
    match partsBetween separator rest with
    | [old, new, flags] => do
      let p ← Text.Pattern.ofChars? old
      return fun line => p.substitute (replacement new) (flags.contains 'g') (line.length + 2) true line
    | _ => none
  | _ => none

/-- Edits the lines of its input. -/
def sed : Program := fun args s =>
  let args := match args with | "-e" :: args => args | args => args
  match args with
  | script :: paths =>
    match substitution? script with
    | none => s.complain ("sed: -e expression #1, char 1: unknown command\n") 1
    | some edit =>
      let s' := cat paths { s with out := .empty }
      let text := Text.ofBytes s'.out
      let ps := Text.pieces (· == '\n') text.toList
      let edited := if text.isEmpty then "" else
        if ps.getLast? == some [] then String.join ((ps.dropLast.map edit).map fun l => .ofList l ++ "\n")
        else Text.join "\n" ((ps.map edit).map String.ofList)
      { s' with out := s.out ++ edited.toUTF8 }
  | [] => s.complain "Usage: sed [OPTION]... \x7bscript-only-if-no-other-script\x7d [input-file]...\n" 1

/-- Comparisons of whole numbers. -/
def compares? (name : String) : Option (Int → Int → Bool) :=
  match name with
  | "-eq" => some fun a b => a == b
  | "-ne" => some fun a b => a != b
  | "-lt" => some fun a b => a < b
  | "-le" => some fun a b => a ≤ b
  | "-gt" => some fun a b => b < a
  | "-ge" => some fun a b => b ≤ a
  | _ => none

/-- Whether a test holds; of a test that is none, nothing is known. -/
def testHolds (s : Session) : List String → Option Bool
  | [] => some false
  | [text] => some (text != "")
  | ["-f", path] => some (s.files.isFile path)
  | ["-d", path] => some (s.files.isDirectory path)
  | ["-e", path] => some (s.files.leadsToAny path)
  | ["-n", text] => some (text != "")
  | ["-z", text] => some (text == "")
  | [a, "=", b] => some (a == b)
  | [a, "!=", b] => some (a != b)
  | [a, name, b] => do return (← compares? name) (← a.toInt?) (← b.toInt?)
  | _ => none

def test : Program := fun args s =>
  let (negated, args) := match args with | "!" :: args => (true, args) | args => (false, args)
  match testHolds s args with
  | some holds => { s with status := if holds != negated then 0 else 1 }
  | none => s.complain "test: too many arguments\n" 2

def bracketTest : Program := fun args s =>
  if args.getLast? == some "]" then test args.dropLast s else s.complain "[: missing ]\n" 2

end Program

/-- The programs that are found on the search path. -/
def programs : List (String × Program) := [
  ("echo", .echo false), ("printf", .printf), ("true", .setStatus 0), ("false", .setStatus 1),
  ("pwd", .pwd), ("sleep", .sleep), ("cp", .cp), ("cat", .cat), ("touch", .touch), ("mkdir", .mkdir),
  ("rm", .rm), ("sed", .sed), ("test", .test), ("[", .bracketTest)]

def program? (name : String) : Option Program := (programs.find? (·.1 == name)).map (·.2)

end CrossBuild.Shell
