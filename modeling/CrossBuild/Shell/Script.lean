import CrossBuild.Shell.Token

/-!
Shell scripts as trees: commands with redirections, joined by pipes and conditions, choices by pattern
or by success, and loops.
-/

namespace CrossBuild.Shell

inductive RedirectKind where
  | read
  | write
  | append
  /-- The target is what is read. -/
  | document
  /-- To where another stream goes. -/
  | copy
  deriving DecidableEq, Repr

structure Redirect where
  stream : Nat
  kind : RedirectKind
  target : Word
  deriving DecidableEq, Repr

/-- What decides whether the second of two scripts runs, or where its input comes from. -/
inductive Link where
  | always
  | ifSuccess
  | ifFailure
  | pipe
  deriving DecidableEq, Repr

mutual

inductive Script where
  | nothing
  | command (words : List Word) (redirects : List Redirect)
  | linked (first : Script) (link : Link) (second : Script)
  | negated (script : Script)
  /-- Runs in a shell of its own. -/
  | nested (script : Script)
  | conditional (condition thenDo elseDo : Script)
  | choice (subject : Word) (branches : Branches)
  /-- Runs once for each field of some words. -/
  | each (name : String) (words : List Word) (body : Script)
  /-- Runs for as long as a condition succeeds. -/
  | loop (condition body : Script)

/-- The branches of a choice, each with its patterns. -/
inductive Branches where
  | none
  | branch (patterns : List Word) (body : Script) (rest : Branches)

end

instance : Inhabited Script := ⟨.nothing⟩

def Fragment.plain? : Fragment → Option (List Char)
  | .text cs false => some cs
  | _ => none

/-- A word that is written as it is, without quotes or parameters. -/
def plainWord? (w : Word) : Option String :=
  (w.mapM Fragment.plain?).map fun parts => String.ofList parts.flatten

/-- Whether a token is a certain plain word. -/
def Token.isKeyword (t : Token) (name : String) : Bool :=
  match t with
  | .word w => !w.isEmpty && plainWord? w == some name
  | _ => false

def expect (name : String) : List Token → Option (List Token)
  | t :: rest => if t.isKeyword name then some rest else none
  | [] => none

def dropBreaks (ts : List Token) : List Token := ts.dropWhile (· == .sign "\n")

def redirectKind? (s : String) : Option RedirectKind :=
  if s == ">" || s == ">|" then some .write
  else if s == ">>" then some .append
  else if s == "<" then some .read
  else if s == "<<" then some .document
  else if s == ">&" || s == "<&" then some .copy
  else none

/-- The redirection that starts with a sign, and what follows it. -/
def redirect? (stream : Option Nat) (ts : List Token) : Option (Redirect × List Token) :=
  match ts with
  | .sign s :: .word w :: rest =>
    (redirectKind? s).map fun kind =>
      (⟨stream.getD (if kind == .read || kind == .document then 0 else 1), kind, w⟩, rest)
  | _ => none

/-- The words and redirections of a command. -/
def commandParts : Nat → List Token → Option (List Word × List Redirect × List Token)
  | 0, _ => none
  | fuel + 1, ts =>
    let redirected := fun (r : Redirect × List Token) =>
      (commandParts fuel r.2).map fun (words, redirects, rest) => (words, r.1 :: redirects, rest)
    match ts with
    | .word w :: rest => (commandParts fuel rest).map fun (words, redirects, rest) => (w :: words, redirects, rest)
    | .stream n :: rest => (redirect? (some n) rest).bind redirected
    | .sign s :: rest =>
      if (redirectKind? s).isSome then (redirect? none (.sign s :: rest)).bind redirected
      else some ([], [], .sign s :: rest)
    | [] => some ([], [], [])

/-- The patterns of a branch up to the parenthesis after them. -/
def patterns : List Token → Option (List Word × List Token)
  | .word w :: .sign ")" :: rest => some ([w], rest)
  | .word w :: .sign "|" :: rest => (patterns rest).map fun (ws, rest) => (w :: ws, rest)
  | _ => none

/-- Whether a list of commands ends here. -/
def endsList : List Token → Bool
  | [] => true
  | t :: _ => t == .sign ";;" || t == .sign ")" ||
      ["then", "else", "elif", "fi", "esac", "do", "done", "\x7d"].any t.isKeyword

def breaksCommand (t : Token) : Bool := t == .sign "\n" || t == .sign ";"

/-- The name and words of a loop over words, which are all arguments where none are given. -/
def loopHead : List Token → Option (String × List Word × List Token)
  | .word w :: rest => do
    let name ← plainWord? w
    match expect "in" (dropBreaks rest) with
    | some rest =>
      let (words, redirects, rest) ← commandParts (rest.length + 1) rest
      if redirects.isEmpty then some (name, words, rest) else none
    | none => some (name, [[.parameter "@" true]], rest)
  | _ => none

mutual

/-- Commands one after another. -/
def scriptFrom (fuel : Nat) (ts : List Token) : Option (Script × List Token) :=
  match fuel with
  | 0 => none
  | fuel + 1 =>
    let ts := ts.dropWhile breaksCommand
    if endsList ts then some (.nothing, ts)
    else do
      let (first, rest) ← andOrFrom fuel ts
      let (others, rest) ← scriptFrom fuel rest
      return (.linked first .always others, rest)
termination_by structural fuel

/-- Pipelines with conditions between them, which hold of all that was before. -/
def andOrFrom (fuel : Nat) (ts : List Token) : Option (Script × List Token) :=
  match fuel with
  | 0 => none
  | fuel + 1 => do
    let (first, rest) ← pipelineFrom fuel ts
    moreFrom fuel first rest
termination_by structural fuel

def moreFrom (fuel : Nat) (first : Script) (ts : List Token) : Option (Script × List Token) :=
  match fuel with
  | 0 => none
  | fuel + 1 =>
    let further := fun (link : Link) (ts : List Token) => do
      let (second, rest) ← pipelineFrom fuel (dropBreaks ts)
      moreFrom fuel (.linked first link second) rest
    match ts with
    | .sign "&&" :: rest => further .ifSuccess rest
    | .sign "||" :: rest => further .ifFailure rest
    | ts => some (first, ts)
termination_by structural fuel

def pipelineFrom (fuel : Nat) (ts : List Token) : Option (Script × List Token) :=
  match fuel with
  | 0 => none
  | fuel + 1 =>
    match expect "!" ts with
    | some rest => do
      let (script, rest) ← pipelineFrom fuel rest
      return (.negated script, rest)
    | none => do
      let (first, rest) ← commandFrom fuel ts
      match rest with
      | .sign "|" :: rest => do
        let (second, rest) ← pipelineFrom fuel (dropBreaks rest)
        return (.linked first .pipe second, rest)
      | rest => return (first, rest)
termination_by structural fuel

def commandFrom (fuel : Nat) (ts : List Token) : Option (Script × List Token) :=
  match fuel with
  | 0 => none
  | fuel + 1 =>
    match ts with
    | .sign "(" :: rest => do
      let (script, rest) ← scriptFrom fuel rest
      match rest with
      | .sign ")" :: rest => return (.nested script, rest)
      | _ => none
    | t :: rest =>
      if t.isKeyword "if" then conditionalFrom fuel rest
      else if t.isKeyword "\x7b" then do
        let (script, rest) ← scriptFrom fuel rest
        return (script, ← expect "\x7d" rest)
      else if t.isKeyword "for" then do
        let (name, words, rest) ← loopHead rest
        let (body, rest) ← bodyFrom fuel rest
        return (.each name words body, rest)
      else if t.isKeyword "while" || t.isKeyword "until" then do
        let (condition, rest) ← scriptFrom fuel rest
        let (body, rest) ← bodyFrom fuel rest
        return (.loop (if t.isKeyword "while" then condition else .negated condition) body, rest)
      else if t.isKeyword "case" then
        match rest with
        | .word subject :: rest => do
          let (branches, rest) ← branchesFrom fuel (← expect "in" (dropBreaks rest))
          return (.choice subject branches, rest)
        | _ => none
      else do
        let (words, redirects, rest) ← commandParts fuel ts
        if words.isEmpty && redirects.isEmpty then none else return (.command words redirects, rest)
    | [] => none
termination_by structural fuel

/-- The body of a loop. -/
def bodyFrom (fuel : Nat) (ts : List Token) : Option (Script × List Token) :=
  match fuel with
  | 0 => none
  | fuel + 1 => do
    let (body, rest) ← scriptFrom fuel (← expect "do" (ts.dropWhile breaksCommand))
    return (body, ← expect "done" rest)
termination_by structural fuel

def conditionalFrom (fuel : Nat) (ts : List Token) : Option (Script × List Token) :=
  match fuel with
  | 0 => none
  | fuel + 1 => do
    let (condition, rest) ← scriptFrom fuel ts
    let (thenDo, rest) ← scriptFrom fuel (← expect "then" rest)
    match rest with
    | t :: rest =>
      if t.isKeyword "fi" then return (.conditional condition thenDo .nothing, rest)
      else if t.isKeyword "elif" then
        let (elseDo, rest) ← conditionalFrom fuel rest
        return (.conditional condition thenDo elseDo, rest)
      else if t.isKeyword "else" then
        let (elseDo, rest) ← scriptFrom fuel rest
        return (.conditional condition thenDo elseDo, ← expect "fi" rest)
      else none
    | [] => none
termination_by structural fuel

def branchesFrom (fuel : Nat) (ts : List Token) : Option (Branches × List Token) :=
  match fuel with
  | 0 => none
  | fuel + 1 =>
    let ts := dropBreaks ts
    match expect "esac" ts with
    | some rest => some (.none, rest)
    | none => do
      let ts := match ts with | .sign "(" :: rest => rest | ts => ts
      let (ps, rest) ← patterns ts
      let (body, rest) ← scriptFrom fuel rest
      let rest := match rest with | .sign ";;" :: rest => rest | rest => rest
      let (others, rest) ← branchesFrom fuel rest
      return (.branch ps body others, rest)
termination_by structural fuel

end

/-- Reads a whole script. -/
def Script.ofText? (text : String) : Option Script := do
  let ts ← tokensOf text
  let (script, rest) ← scriptFrom (8 * ts.length + 8) ts
  if rest.isEmpty then some script else none

end CrossBuild.Shell
