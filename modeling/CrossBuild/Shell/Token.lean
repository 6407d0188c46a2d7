import CrossBuild.Text.Basic

/-!
The words and signs of shell scripts. Single quotes keep everything as it is, double quotes all but
parameters, and a backslash the next character. A document in a script is the lines after `<<` and a
word, up to a line that is the word.
-/

namespace CrossBuild.Shell

/-- A piece of a word. What is quoted is kept as it is. -/
inductive Fragment where
  | text (chars : List Char) (quoted : Bool)
  | parameter (name : String) (quoted : Bool)
  deriving DecidableEq, Repr

abbrev Word := List Fragment

inductive Token where
  | word (w : Word)
  /-- A sign such as `;`, `|` or `>>`; a line break is the sign `\n`. -/
  | sign (s : String)
  /-- The number of a stream right before a redirection. -/
  | stream (n : Nat)
  deriving DecidableEq, Repr

/-- The signs, longer ones first. -/
def signs : List String :=
  [";;", "&&", "||", ">>", "<<", ">&", "<&", ">|", ";", "&", "|", "(", ")", "<", ">", "\n"]

def isNameStart (c : Char) : Bool := c.isAlpha || c == '_'

def isNameChar (c : Char) : Bool := c.isAlphanum || c == '_'

/-- The name of the parameter after a dollar sign, and what follows it. -/
def parameter? (cs : List Char) : Option (String × List Char) :=
  match cs with
  | '{' :: rest =>
    let name := rest.takeWhile (· != '}')
    match rest.drop name.length with
    | _ :: after => some (.ofList name, after)
    | [] => none
  | c :: rest =>
    if c.isDigit || ['@', '*', '#', '?', '$', '!'].contains c then some (.ofList [c], rest)
    else if isNameStart c then some (.ofList (cs.takeWhile isNameChar), cs.dropWhile isNameChar)
    else none
  | [] => none

/-- The rest of a word inside double quotes. -/
def doubleQuoted : Nat → List Char → Option (Word × List Char)
  | 0, _ | _, [] => none
  | fuel + 1, c :: rest =>
    let more := fun (f : Fragment) (rest : List Char) =>
      (doubleQuoted fuel rest).map fun (w, rest) => (f :: w, rest)
    match c, rest with
    | '"', rest => some ([], rest)
    | '\\', d :: rest =>
      if d == '\n' then doubleQuoted fuel rest
      else if ['$', '"', '\\', '\x60'].contains d then more (.text [d] true) rest
      else more (.text ['\\', d] true) rest
    | '$', rest =>
      match parameter? rest with
      | some (name, rest) => more (.parameter name true) rest
      | none => more (.text ['$'] true) rest
    | c, rest => more (.text [c] true) rest

/-- Whether a character ends a word that is not quoted. -/
def endsWord (c : Char) : Bool := [' ', '\t', '\n', ';', '&', '|', '<', '>', '(', ')'].contains c

/-- A word and what follows it. -/
def wordFrom : Nat → List Char → Option (Word × List Char)
  | 0, _ => none
  | _, [] => some ([], [])
  | fuel + 1, c :: rest =>
    let more := fun (f : Word) (rest : List Char) =>
      (wordFrom fuel rest).map fun (w, rest) => (f ++ w, rest)
    if endsWord c then some ([], c :: rest)
    else
      match c, rest with
      | '\'', rest =>
        let inside := rest.takeWhile (· != '\'')
        match rest.drop inside.length with
        | _ :: after => more [.text inside true] after
        | [] => none
      | '"', rest => do
        let (inside, rest) ← doubleQuoted fuel rest
        more (.text [] true :: inside) rest
      | '\\', d :: rest => if d == '\n' then wordFrom fuel rest else more [.text [d] true] rest
      | '$', rest =>
        match parameter? rest with
        | some (name, rest) => more [.parameter name false] rest
        | none => more [.text ['$'] false] rest
      | c, rest => more [.text [c] false] rest

/-- What a word says where it is not looked at for parameters. -/
def Fragment.literal : Fragment → List Char
  | .text cs _ => cs
  | .parameter name _ => '$' :: name.toList

def Fragment.isQuoted : Fragment → Bool
  | .text _ quoted | .parameter _ quoted => quoted

/-- A document in which parameters stand for their values. -/
def documentWord : Nat → List Char → Word
  | 0, _ | _, [] => []
  | fuel + 1, '\\' :: c :: rest =>
    if ['$', '\\', '\x60'].contains c then .text [c] true :: documentWord fuel rest
    else .text ['\\', c] true :: documentWord fuel rest
  | fuel + 1, '$' :: rest =>
    match parameter? rest with
    | some (name, rest) => .parameter name true :: documentWord fuel rest
    | none => .text ['$'] true :: documentWord fuel rest
  | fuel + 1, c :: rest => .text [c] true :: documentWord fuel rest

/-- The lines up to one that ends a document, and what follows that one. -/
def documentLines (ending : List Char) : List (List Char) → List (List Char) × List (List Char)
  | [] => ([], [])
  | line :: lines =>
    if line == ending then ([], lines)
    else
      let (document, rest) := documentLines ending lines
      (line :: document, rest)

/-- A document that ends with a word, whose lines begin after the present one, and the script without
those lines. -/
def document (ending : Word) (cs : List Char) : Word × List Char :=
  match Text.pieces (· == '\n') cs with
  | [] => ([], cs)
  | present :: lines =>
    let (body, rest) := documentLines (ending.flatMap Fragment.literal) lines
    let text := body.flatMap (· ++ ['\n'])
    let word := if ending.any Fragment.isQuoted then [.text text true] else documentWord (text.length + 1) text
    (word, present ++ rest.flatMap ('\n' :: ·))

/-- The stream number that digits right before a redirection are. -/
def stream? (cs : List Char) : Option (Nat × List Char) :=
  let digits := cs.takeWhile Char.isDigit
  let rest := cs.dropWhile Char.isDigit
  match rest with
  | '<' :: _ | '>' :: _ => (Text.number? 10 digits).map (·, rest)
  | _ => none

def sign? (cs : List Char) : Option (String × List Char) :=
  signs.findSome? fun s => (Text.dropStart s.toList cs).map (s, ·)

/-- The tokens of a script, unless a quote is left open. -/
def tokens : Nat → List Char → Option (List Token)
  | 0, _ => none
  | _, [] => some []
  | fuel + 1, c :: rest =>
    if c == ' ' || c == '\t' then tokens fuel rest
    else if c == '#' then tokens fuel (rest.dropWhile (· != '\n'))
    else if c == '\\' && rest.head? == some '\n' then tokens fuel (rest.drop 1)
    else
      match sign? (c :: rest) with
      | some ("<<", rest) => do
        let (ending, rest) ← wordFrom fuel (rest.dropWhile (· == ' '))
        let (w, rest) := document ending rest
        return .sign "<<" :: .word w :: (← tokens fuel rest)
      | some (s, rest) => (tokens fuel rest).map (.sign s :: ·)
      | none =>
        match stream? (c :: rest) with
        | some (n, rest) => (tokens fuel rest).map (.stream n :: ·)
        | none => do
          let (w, rest) ← wordFrom fuel (c :: rest)
          return .word w :: (← tokens fuel rest)

def tokensOf (script : String) : Option (List Token) := tokens (script.length + 2) script.toList

end CrossBuild.Shell
