import CrossBuild.CommandLine.Parameter

/-!
Reading a command line, word by word. A word that begins with a dash is an option, with its value
after `=` or in the next word; a value in a word of its own cannot look like an option. After `--`
nothing is an option any more. An option can be given once at each level, unless it takes several
texts.
-/

namespace CrossBuild.CommandLine

/-- What is wrong with a command line. -/
inductive UsageFault where
  | unknownOption (word : String)
  | unknownCommand (word : String)
  | missingCommand
  | unexpectedOperand (word : String)
  | unexpectedValue (p : Parameter)
  | missingValue (p : Parameter)
  | emptyPath (p : Parameter)
  | repeated (p : Parameter)
  | missing (p : Parameter)
  | together (p q : Parameter)
  deriving DecidableEq, Repr

def Parameter.display (p : Parameter) : String := "--" ++ p.name

def UsageFault.message : UsageFault → String
  | .unknownOption word => "unexpected argument '" ++ word ++ "' found"
  | .unknownCommand word => "unrecognized subcommand '" ++ word ++ "'"
  | .missingCommand => "a subcommand is required"
  | .unexpectedOperand word => "unexpected argument '" ++ word ++ "' found"
  | .unexpectedValue p => "unexpected value for '" ++ p.display ++ "'"
  | .missingValue p => "a value is required for '" ++ p.display ++ "'"
  | .emptyPath p => "'" ++ p.display ++ "' cannot be empty"
  | .repeated p => "'" ++ p.display ++ "' cannot be used multiple times"
  | .missing p => "'" ++ p.display ++ "' is required"
  | .together p q => "'" ++ p.display ++ "' cannot be used with '" ++ q.display ++ "'"

/-- Why a command line asks for nothing to be done. -/
inductive Stop where
  | usage (level : Level) (fault : UsageFault)
  | help (level : Level)
  | version
  deriving DecidableEq, Repr

/-- A word of a command line, taken apart. -/
inductive Word where
  | long (name : String) (value : Option String)
  | letters (letters : List Char)
  /-- Two dashes: no word after it is an option. -/
  | separator
  | plain (text : String)
  deriving DecidableEq, Repr

/-- A long option is cut at its first `=`. A single dash is no option. -/
def Word.ofText (text : String) : Word :=
  match text.toList with
  | ['-', '-'] => .separator
  | '-' :: '-' :: body =>
    let name := String.ofList (body.takeWhile (· != '='))
    match body.dropWhile (· != '=') with
    | [] => .long name none
    | _ :: value => .long name (some (String.ofList value))
  | '-' :: c :: cs => .letters (c :: cs)
  | _ => .plain text

def Word.isPlain : Word → Bool
  | .plain _ => true
  | _ => false

/-- What a command line has given. -/
structure Given where
  /-- Options with their values, in order. -/
  values : List (Parameter × String)
  operands : List String
  deriving DecidableEq, Repr

namespace Given

def nothing : Given := ⟨[], []⟩

/-- The values that an option was given, in order. -/
def all (given : Given) (p : Parameter) : List String :=
  given.values.filterMap fun (q, value) => if q == p then some value else none

def has (given : Given) (p : Parameter) : Bool := !(given.all p).isEmpty

/-- The value that an option was given last, which is at the deepest level. -/
def last? (given : Given) (p : Parameter) : Option String := (given.all p).getLast?

end Given

/-- How far a word takes the reading. -/
inductive Progress where
  | done (given : Given)
  /-- The next word is the value of an option. -/
  | awaits (given : Given) (p : Parameter)
  deriving DecidableEq, Repr

/-- A command line as it was read: the command, and what all levels were given. -/
structure Reading where
  level : Level
  given : Given
  deriving DecidableEq, Repr

namespace Level

def refuse {α : Type} (level : Level) (fault : UsageFault) : Except Stop α := .error (.usage level fault)

/-- Gives an option a value. -/
def give (level : Level) (given : Given) (p : Parameter) (value : String) : Except Stop Given :=
  if p == .help then .error (.help level)
  else if p == .version then .error .version
  else if p.takes != .texts && given.has p then level.refuse (.repeated p)
  else if p.takes == .path && value.isEmpty then level.refuse (.emptyPath p)
  else .ok { given with values := given.values ++ [(p, value)] }

/-- Gives a long option the value that is written with it, if any. -/
def giveLong (level : Level) (given : Given) (p : Parameter) (value : Option String) : Except Stop Progress :=
  match p.takes, value with
  | .nothing, none => (level.give given p "").map .done
  | .nothing, some _ => level.refuse (.unexpectedValue p)
  | _, some value => (level.give given p value).map .done
  | _, none => .ok (.awaits given p)

/-- What is written behind a letter as the letter's value. -/
def attached (cs : List Char) : String :=
  match cs with
  | '=' :: value => String.ofList value
  | value => String.ofList value

/-- Gives options by their letters. What follows one that takes a value is the value. -/
def giveLetters (level : Level) (given : Given) : List Char → Except Stop Progress
  | [] => .ok (.done given)
  | c :: cs =>
    match level.optionLettered? c with
    | none => level.refuse (.unknownOption (String.ofList ['-', c]))
    | some p =>
      if p.takes == .nothing then do
        giveLetters level (← level.give given p "") cs
      else if cs.isEmpty then .ok (.awaits given p)
      else (level.give given p (attached cs)).map .done

/-- Gives what a word that looks like an option names. -/
def giveOption (level : Level) (given : Given) (text : String) : Except Stop Progress :=
  match Word.ofText text with
  | .long name value =>
    match level.optionNamed? name with
    | none => level.refuse (.unknownOption text)
    | some p => level.giveLong given p value
  | .letters cs => level.giveLetters given cs
  | _ => level.refuse (.unknownOption text)

/-- Gives words besides options, as many as the level can take. -/
def giveOperands (level : Level) : Given → List String → Except Stop Given
  | given, [] => .ok given
  | given, word :: words =>
    if given.operands.length < level.operandLimit then
      giveOperands level { given with operands := given.operands ++ [word] } words
    else if level.below.isEmpty then level.refuse (.unexpectedOperand word)
    else level.refuse (.unknownCommand word)

/-- The level that a request for help names by commands. -/
def helpFor (level : Level) : List String → Stop
  | [] => .help level
  | word :: words =>
    match level.command? word with
    | some next => helpFor next words
    | none => .usage level (.unknownCommand word)

/-- Refuses paths that the environment leaves empty, where the option is not given at this level. -/
def checkFallbacks (vars : Run.Variables) (level : Level) (given : Given) : Except Stop Unit :=
  let isBad := fun (p : Parameter) => p.takes == .path && !given.has p && p.fallback? vars == some ""
  match level.options.find? isBad with
  | some p => level.refuse (.emptyPath p)
  | none => .ok ()

/-- Ends the reading of the last command. -/
def close (vars : Run.Variables) (level : Level) (given : Given) : Except Stop Reading := do
  if !level.below.isEmpty then level.refuse .missingCommand
  level.checkFallbacks vars given
  return ⟨level, given⟩

/-- Reads words at a level that has been given something already. -/
def read (vars : Run.Variables) (level : Level) (given : Given) : List String → Except Stop Reading
  | [] => level.close vars given
  | text :: rest =>
    match Word.ofText text with
    | .separator => do level.close vars (← level.giveOperands given rest)
    | .plain word =>
      match level.command? word with
      | some next => do
        let reading ← read vars next .nothing rest
        level.checkFallbacks vars given
        return { reading with given.values := given.values ++ reading.given.values }
      | none =>
        if !level.below.isEmpty && word == Parameter.help.name then .error (level.helpFor rest)
        else do
          read vars level (← level.giveOperands given [word]) rest
    | _ =>
      match level.giveOption given text with
      | .error stop => .error stop
      | .ok (.done given) => read vars level given rest
      | .ok (.awaits given p) =>
        match rest with
        | [] => level.refuse (.missingValue p)
        | value :: rest =>
          if (Word.ofText value).isPlain then do
            read vars level (← level.give given p value) rest
          else level.refuse (.missingValue p)

end Level

/-- Reads the words that follow the program's name. -/
def Reading.ofWords (vars : Run.Variables) (words : List String) : Except Stop Reading :=
  Level.top.read vars .nothing words

end CrossBuild.CommandLine
