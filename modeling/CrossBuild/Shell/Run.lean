import CrossBuild.Command.Basic
import CrossBuild.Machine
import CrossBuild.Shell.Program

/-!
Running scripts, and commands as processes: a command is looked up on the search path, where it is one
of the known programs, a shell or a script.
-/

namespace CrossBuild.Shell

/-- Where a stream goes. -/
inductive Sink where
  | out
  | err
  | nowhere
  | file (path : String)
  deriving DecidableEq, Repr

/-- The streams of a command. -/
structure Streams where
  input : ByteArray
  out : Sink
  err : Sink

def Streams.sink (st : Streams) (n : Nat) : Sink := if n == 2 then st.err else st.out

def Streams.set (st : Streams) (n : Nat) (sink : Sink) : Streams :=
  if n == 2 then { st with err := sink } else { st with out := sink }

/-- The file that takes everything and holds nothing. -/
def nullDevice : String := "/dev/null"

/-- The complaint of a redirection that fails. -/
def redirectComplaint (kind : RedirectKind) (target : String) : String :=
  if kind == .read then "cannot open " ++ target ++ ": No such file"
  else "cannot create " ++ target ++ ": Directory nonexistent"

/-- Opens what a redirection names, or complains. -/
def redirect (s : Session) (st : Streams) (r : Redirect) : Except String (Session × Streams) :=
  let target := s.single r.target
  let opened := fun (files : Except FileFault (Session × Streams)) =>
    files.mapError fun _ => redirectComplaint r.kind target
  if r.kind != .copy && target == nullDevice then
    .ok (s, if r.kind == .read then { st with input := .empty } else st.set r.stream .nowhere)
  else match r.kind with
  | .copy => .ok (s, st.set r.stream (st.sink (if target == "2" then 2 else 1)))
  | .document => .ok (s, { st with input := target.toUTF8 })
  | .read => opened ((s.files.read target).map fun data => (s, { st with input := data }))
  | .write => opened ((s.files.write target .empty s.now).map fun files =>
      ({ s with files }, st.set r.stream (.file target)))
  | .append =>
    let kept := fun (old : Option File) => old.getD ⟨.empty, s.now, FileTree.fileMode⟩
    opened ((s.files.update target kept s.now).map fun files => ({ s with files }, st.set r.stream (.file target)))

/-- Appends what was written to where it goes. -/
def deliver (s : Session) (data : ByteArray) : Sink → Session
  | .out => { s with out := s.out ++ data }
  | .err => { s with err := s.err ++ data }
  | .nowhere => s
  | .file path =>
    let append := fun (old : Option File) =>
      match old with
      | some f => { f with data := f.data ++ data, modified := s.now }
      | none => ⟨data, s.now, FileTree.fileMode⟩
    if data.isEmpty then s else { s with files := (s.files.update path append s.now).toOption.getD s.files }

/-- Runs something with its streams redirected. -/
def withRedirects (redirects : List Redirect) (run : Session → Session) (s : Session) : Session :=
  match redirects.foldlM (fun (s, st) r => redirect s st r) (s, ⟨s.input, .out, .err⟩) with
  | .error complaint => s.complain (s.place ++ complaint ++ "\n") 2
  | .ok (s, st) =>
    let inner := run { s with input := st.input, out := .empty, err := .empty }
    let after := { inner with input := s.input, out := s.out, err := s.err }
    deliver (deliver after inner.out st.out) inner.err st.err

/-- What a name on the search path is. -/
inductive Found where
  | program (run : Program)
  | shell
  | script (path text : String)

def systemDirectories : List String := ["/bin", "/usr/bin"]

/-- The search path where none is set. -/
def standardPath : String := "/usr/local/bin:/usr/bin:/bin"

/-- What a program of the system is. -/
def systemProgram? (path : String) : Option Found := do
  let dir ← Path.parent? path
  let name := Program.lastName path
  if !systemDirectories.contains dir then none
  else if ["sh", "dash", "bash"].contains name then some .shell
  else (program? name).map .program

/-- What can be run at a path: a script has to say which program reads it. -/
def foundAt? (files : FileTree) (path : String) : Option Found :=
  match files.file path with
  | .ok f =>
    if !FileTree.allows f.mode FileTree.searchBit then none
    else
      match files.readText path with
      | .ok text => if Text.startsWith text "#!" then some (.script path text) else none
      | .error _ => none
  | .error _ => systemProgram? path

/-- Looks a program up, on the search path unless its name has a slash. -/
def find? (files : FileTree) (vars : String → Option String) (name : String) : Option Found :=
  if name.toList.contains '/' then foundAt? files name
  else if name.isEmpty then none
  else
    (Text.splitAt ':' ((vars "PATH").getD standardPath)).findSome? fun dir =>
      foundAt? files (Path.join (if dir.isEmpty then "." else dir) name)

/-- The body of the first branch with a pattern that matches. -/
def Branches.body? (s : Session) (subject : List Char) : Branches → Option Script
  | .none => Option.none
  | .branch patterns body rest =>
    if patterns.any fun p => matchesPattern (s.patternOf p) subject then some body
    else body? s subject rest

/-- The status that a shell sees of a finished process. -/
def seenStatus (status : Int) : Int := if status < 0 then 128 - status else status

/-- The parent's session after a child ran: files and output of the child, all else as it was. -/
def afterChild (parent child : Session) : Session :=
  { parent with
    files := child.files.seenFrom parent.files.current
    out := child.out
    err := child.err
    status := seenStatus child.status
    slept := child.slept }

/-- The number of a signal, from an option such as `-9` or `-TERM`. -/
def signalNumber (option : String) : Nat :=
  match option with
  | "-KILL" => 9
  | "-HUP" => 1
  | "-INT" => 2
  | "-TERM" => 15
  | option => (Text.number? 10 (option.toList.drop 1)).getD 15

/-- Sends a signal, which ends the script if it is meant. Statuses below zero stand for signals. -/
def kill : Program := fun args s =>
  let (signal, targets) := match args with
    | option :: targets => if Text.startsWith option "-" then (signalNumber option, targets) else (15, args)
    | [] => (15, [])
  if targets.contains Session.processId && signal != 0 then s.finish (-(signal : Int)) else { s with status := 0 }

/-- Sets the arguments, or whether a failure ends the script. -/
def setOptions : Program := fun args s =>
  match args with
  | [] => { s with status := 0 }
  | "--" :: args => { s with args, status := 0 }
  | option :: args =>
    if Text.startsWith option "-" || Text.startsWith option "+" then
      let strict := if option.toList.contains 'e' then Text.startsWith option "-" else s.strict
      setOptions args { s with strict }
    else { s with args := option :: args, status := 0 }

/-- The commands that a shell carries out itself. -/
def builtin? (name : String) : Option Program :=
  match name with
  | ":" => some (.setStatus 0)
  | "echo" => some (.echo true)
  | "kill" => some kill
  | "exit" => some fun args s =>
      s.finish (((args.head?.bind String.toInt?).getD s.status) % 256)
  | "shift" => some fun _ s => { s with args := s.args.drop 1, status := 0 }
  | "set" => some setOptions
  | "cd" => some fun args s =>
      match (args.head?.map s.files.place) with
      | some (.ok place) => { s with files := s.files.seenFrom place, status := 0 }
      | _ => s.complain ("cd: can't cd to " ++ args.headD "" ++ "\n") 2
  | "printf" | "true" | "false" | "pwd" | "test" | "[" => program? name
  | _ => none

/-- The variable that a field such as `NAME=value` sets. -/
def assignment? (field : String) : Option (String × String) :=
  let cs := field.toList
  let name := cs.takeWhile isNameChar
  if name.head?.any isNameStart && cs[name.length]? == some '=' then
    some (.ofList name, .ofList (cs.drop (name.length + 1)))
  else none

/-- Runs something whose failure decides what comes next, and ends nothing. -/
def asCondition (run : Session → Session) (s : Session) : Session :=
  { run { s with strict := false } with strict := s.strict }

def assign (s : Session) (name value : String) : Session :=
  { s with vars := fun n => if n == name then some value else s.vars n, status := 0 }

mutual

def runScript (fuel : Nat) (script : Script) (s : Session) : Session :=
  match fuel with
  | 0 => s.giveUp
  | fuel + 1 =>
    if s.ended then s
    else
      match script with
      | .nothing => s
      | .command words redirects =>
        let argv := words.flatMap s.fields
        (withRedirects redirects (runWords fuel argv) s).afterCommand
      | .linked first link second =>
        match link with
        | .always => runScript fuel second (runScript fuel first s)
        | .ifSuccess =>
          let s := asCondition (runScript fuel first) s
          if s.status == 0 then runScript fuel second s else s
        | .ifFailure =>
          let s := asCondition (runScript fuel first) s
          if s.status == 0 then s else runScript fuel second s
        | .pipe =>
          let left := runScript fuel first { s with out := .empty }
          let files := left.files.seenFrom s.files.current
          let right := runScript fuel second
            { s with files, err := left.err, input := left.out, slept := left.slept }
          (afterChild s right).afterCommand
      | .negated script =>
        let s := asCondition (runScript fuel script) s
        { s with status := if s.status == 0 then 1 else 0 }
      | .nested script => (afterChild s (runScript fuel script s)).afterCommand
      | .conditional condition thenDo elseDo =>
        let s := asCondition (runScript fuel condition) s
        if s.status == 0 then runScript fuel thenDo s else runScript fuel elseDo { s with status := 0 }
      | .choice subject branches =>
        match branches.body? s (s.single subject).toList with
        | some body => runScript fuel body s
        | none => { s with status := 0 }
      | .each name words body => runEach fuel name (words.flatMap s.fields) body { s with status := 0 }
      | .loop condition body =>
        let s := asCondition (runScript fuel condition) s
        if s.ended then s
        else if s.status == 0 then runScript fuel (.loop condition body) (runScript fuel body s)
        else { s with status := 0 }
termination_by structural fuel

/-- Runs a script for each value of a variable. -/
def runEach (fuel : Nat) (name : String) (values : List String) (body : Script) (s : Session) : Session :=
  match fuel with
  | 0 => s.giveUp
  | fuel + 1 =>
    match values with
    | [] => s
    | value :: values => runEach fuel name values body (runScript fuel body (assign s name value))
termination_by structural fuel

/-- Runs the words of a command. -/
def runWords (fuel : Nat) (argv : List String) (s : Session) : Session :=
  match fuel with
  | 0 => s.giveUp
  | fuel + 1 =>
    match argv with
    | [] => { s with status := 0 }
    | ["exec"] => { s with status := 0 }
    | "exec" :: argv =>
      let s := runWords fuel argv s
      s.finish s.status
    | name :: args =>
      match builtin? name with
      | some run => run args s
      | none =>
        match find? s.files s.vars name with
        | some found => afterChild s (runFound fuel found args s)
        | none =>
          match assignment? name with
          | some (target, value) => assign s target value
          | none => s.complain (s.place ++ name ++ ": not found\n") 127
termination_by structural fuel

/-- Runs what was found with some arguments, as a process of its own. -/
def runFound (fuel : Nat) (found : Found) (args : List String) (s : Session) : Session :=
  match fuel with
  | 0 => s.giveUp
  | fuel + 1 =>
    match found with
    | .program run => run args s
    | .script path text => runText fuel text { s with name := path, args, strict := false }
    | .shell =>
      match args with
      | "-c" :: text :: rest =>
        runText fuel text { s with name := rest.headD "sh", args := rest.drop 1, strict := false }
      | path :: rest =>
        match s.files.readText path with
        | .ok text => runText fuel text { s with name := path, args := rest, strict := false }
        | .error _ => s.complain ("sh: 0: cannot open " ++ path ++ ": No such file\n") 2
      | [] => { s with status := 0 }
termination_by structural fuel

/-- Reads and runs a script. -/
def runText (fuel : Nat) (text : String) (s : Session) : Session :=
  match fuel with
  | 0 => s.giveUp
  | fuel + 1 =>
    match Script.ofText? text with
    | some script => runScript fuel script { s with status := 0 }
    | none => s.complain (s.place ++ "Syntax error\n") 2
termination_by structural fuel

end

/-- Enough for any script without commands that call themselves. -/
def depthLimit : Nat := 20000

/-- The files as a command sees them from the directory that it runs in. -/
def filesFor (files : FileTree) (c : Command) : Option FileTree :=
  match c.cwd with
  | none => some files
  | some dir =>
    match files.place dir, files.isDirectory dir with
    | .ok place, true => some (files.seenFrom place)
    | _, _ => none

/-- Runs commands as processes, with a limit in milliseconds if there is one. -/
def executor {σ : Type} (vars : String → Option String) (limit : Option Nat) : Executor (Machine σ) := fun c => do
  match c.argv with
  | [] => return .error .emptyArgv
  | program :: args =>
    let machine ← get
    match filesFor machine.files c with
    | none => return .error (.spawn program)
    | some files =>
      match find? files vars program with
      | none => return .error (.spawn program)
      | some found =>
        let s : Session := ⟨files, machine.now, program, args, vars, .empty, .empty, .empty, 0, false, false, 0⟩
        let s := runFound depthLimit found args s
        set { machine with files := s.files.seenFrom machine.files.current }
        match limit with
        | some ms => if s.slept > ms then return .error (.timeout c.display (ms / 1000))
        | none => pure ()
        return .ok ⟨if s.status < 0 then -1 else s.status, Text.ofBytes s.out, Text.ofBytes s.err⟩

end CrossBuild.Shell
