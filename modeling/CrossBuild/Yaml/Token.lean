import CrossBuild.Yaml.Block
import CrossBuild.Yaml.Flow

/-!
The tokens of a YAML text. Indentation becomes tokens that open and close blocks. What stands before a
colon is known as a key only when the colon is reached; the places where a key may have begun are kept
until then, and the token for the key is put in there.
-/

namespace CrossBuild.Yaml

inductive Token where
  | version (major minor : Nat)
  | tagHandle (handle start : String)
  | documentStart
  | documentEnd
  | blockSequence
  | blockMapping
  | blockEnd
  | flowSequence
  | flowSequenceEnd
  | flowMapping
  | flowMappingEnd
  | blockEntry
  | flowEntry
  | key
  | value
  | alias (name : String)
  | anchor (name : String)
  | tag (handle suffix : String)
  | scalar (plain : Bool) (text : String)
  deriving DecidableEq, Repr

/-- A place where a key may have begun. -/
structure KeyPlace where
  /-- How many tokens stand before it. -/
  position : Nat
  index : Nat
  line : Nat
  column : Nat
  /-- Whether only a key can stand there. -/
  required : Bool

/-- A text being cut into tokens. -/
structure Scanner where
  cursor : Cursor
  /-- The tokens so far, last first. -/
  tokens : List Token
  count : Nat
  /-- The column of the innermost block, and those of the blocks around it. -/
  indent : Int
  outer : List Int
  /-- For each open bracket and the block around them the place where a key may have begun, innermost
  first. -/
  places : List (Option KeyPlace)
  /-- Whether a key may begin here. -/
  keyAllowed : Bool

namespace Scanner

def start (text : List Char) : Scanner := ⟨⟨text, 0, 0, 0⟩, [], 0, -1, [], [none], true⟩

/-- Whether some bracket is open. -/
def inFlow (s : Scanner) : Bool := s.places.length > 1

def push (s : Scanner) (t : Token) : Scanner := { s with tokens := t :: s.tokens, count := s.count + 1 }

/-- Puts a token in after as many others. -/
def insertAt (s : Scanner) (position : Nat) (t : Token) : Scanner :=
  let later := s.count - position
  { s with tokens := s.tokens.take later ++ t :: s.tokens.drop later, count := s.count + 1 }

def moveTo (s : Scanner) (c : Cursor) : Scanner := { s with cursor := c }

def allowKey (s : Scanner) (allowed : Bool) : Scanner := { s with keyAllowed := allowed }

/-- Gives up the innermost place of a key, unless only a key can stand there. -/
def dropPlace (s : Scanner) : Option Scanner :=
  match s.places with
  | some place :: places => if place.required then none else some { s with places := none :: places }
  | _ => some s

/-- Notes that a key may begin here. -/
def notePlace (s : Scanner) : Option Scanner :=
  if !s.keyAllowed then some s
  else
    s.dropPlace.map fun s =>
      let c := s.cursor
      let place : KeyPlace := ⟨s.count, c.index, c.line, c.column, !s.inFlow && s.indent == c.column⟩
      { s with places := some place :: s.places.drop 1 }

/-- Whether a key that began at a place would have to be on an earlier line or too far back. -/
def isStale (c : Cursor) (place : KeyPlace) : Bool := place.line < c.line || place.index + 1024 < c.index

/-- Gives up all places from which no key can reach here. -/
def dropStale (s : Scanner) : Option Scanner :=
  let stale := fun (place : Option KeyPlace) => place.any (isStale s.cursor)
  if s.places.any (fun place => stale place && place.any (·.required)) then none
  else some { s with places := s.places.map fun place => if stale place then none else place }

/-- Opens a block at a column that is deeper than the innermost one. -/
def openBlock (s : Scanner) (column position : Nat) (t : Token) : Scanner :=
  if s.inFlow || column ≤ s.indent then s
  else { s.insertAt position t with indent := column, outer := s.indent :: s.outer }

/-- Closes the blocks that are deeper than a column, given the columns of those around them. -/
def closeBlocks (column : Int) : List Int → Scanner → Scanner
  | [], s => s
  | indent :: outer, s =>
    if s.indent ≤ column then s
    else closeBlocks column outer { s.push .blockEnd with indent, outer }

def closeTo (s : Scanner) (column : Int) : Scanner :=
  if s.inFlow then s else closeBlocks column s.outer s

/-- Goes to the next token, past blanks, comments and line breaks. -/
def skipToToken : Nat → Scanner → Scanner
  | 0, s => s
  | fuel + 1, s =>
    let c := s.cursor
    let c := if c.column == 0 && c.atChar '\ufeff' then c.advance 1 else c
    let tabs := s.inFlow || !s.keyAllowed
    let c := c.skipWhile (fun x => x == ' ' || (tabs && x == '\t'))
    let c := if c.atChar '#' then c.skipWhile (fun x => !Scalar.isBreak x) else c
    if c.next Scalar.isBreak then
      skipToToken fuel { s with cursor := c.skipBreak, keyAllowed := s.keyAllowed || !s.inFlow }
    else s.moveTo c

/-- A token of one character. -/
def mark (s : Scanner) (t : Token) : Scanner := (s.moveTo (s.cursor.advance 1)).push t

/-- Ends all blocks before something that stands between documents. -/
def leaveDocument (s : Scanner) : Option Scanner := (s.closeTo (-1)).dropPlace.map (·.allowKey false)

def documentMark (s : Scanner) (t : Token) : Option Scanner :=
  s.leaveDocument.map fun s => (s.moveTo (s.cursor.advance 3)).push t

def openFlow (s : Scanner) (t : Token) : Option Scanner :=
  s.notePlace.map fun s => ({ s with places := none :: s.places, keyAllowed := true }).mark t

def closeFlow (s : Scanner) (t : Token) : Option Scanner :=
  s.dropPlace.map fun s =>
    ({ s with places := if s.inFlow then s.places.drop 1 else s.places, keyAllowed := false }).mark t

def flowEntry (s : Scanner) : Option Scanner :=
  s.dropPlace.map fun s => (s.allowKey true).mark .flowEntry

def blockEntry (s : Scanner) : Option Scanner :=
  if !s.inFlow && !s.keyAllowed then none
  else
    (s.openBlock s.cursor.column s.count .blockSequence).dropPlace.map fun s =>
      (s.allowKey true).mark .blockEntry

def explicitKey (s : Scanner) : Option Scanner :=
  if !s.inFlow && !s.keyAllowed then none
  else
    (s.openBlock s.cursor.column s.count .blockMapping).dropPlace.map fun s =>
      (s.allowKey (!s.inFlow)).mark .key

/-- A colon. If a key may have begun before it, it did. -/
def value (s : Scanner) : Option Scanner :=
  match s.places with
  | some place :: places =>
    let s := (s.insertAt place.position .key).openBlock place.column place.position .blockMapping
    some (({ s with places := none :: places, keyAllowed := false }).mark .value)
  | _ =>
    if !s.inFlow && !s.keyAllowed then none
    else
      let s := s.openBlock s.cursor.column s.count .blockMapping
      some ((s.allowKey (!s.inFlow)).mark .value)

/-- Reads something that may be a key or stand before one. -/
def inline (s : Scanner) (read : Cursor → Option (Token × Cursor)) : Option Scanner := do
  let s ← s.notePlace
  let (t, c) ← read s.cursor
  return ((s.allowKey false).moveTo c).push t

/-- Reads the name of an anchor after its mark. -/
def readName (make : String → Token) (c : Cursor) : Option (Token × Cursor) :=
  let (name, c) := (c.advance 1).takeWhile isWordChar
  let ended := c.blankAfter 0 || c.next (fun x => ['?', ':', ',', ']', '}', '%', '@', '\x60'].contains x)
  if name.isEmpty || !ended then none else some (make (String.ofList name), c)

/-- A byte written as two hexadecimal digits after a percent sign. -/
def escapedByte? : List Char → Option UInt8
  | '%' :: a :: b :: _ => (Text.number? 16 [a, b]).map UInt8.ofNat
  | _ => none

/-- How many bytes the character has that a byte begins. -/
def byteCount? (b : UInt8) : Option Nat :=
  if b < 0x80 then some 1
  else if b &&& 0xE0 == 0xC0 then some 2
  else if b &&& 0xF0 == 0xE0 then some 3
  else if b &&& 0xF8 == 0xF0 then some 4
  else none

/-- Reads the percent-encoded bytes of one character. -/
def readEncoded (c : Cursor) : Option (List Char × Cursor) := do
  let count ← byteCount? (← escapedByte? c.rest)
  let bytes ← (List.range count).mapM fun i => escapedByte? (c.rest.drop (3 * i))
  let text ← String.fromUTF8? ⟨bytes.toArray⟩
  return (text.toList, c.advance (3 * count))

def isUriChar (verbatim : Bool) (x : Char) : Bool :=
  isWordChar x ||
    [';', '/', '?', ':', '@', '&', '=', '+', '$', '.', '!', '~', '*', '\'', '(', ')'].contains x ||
    (verbatim && [',', '[', ']'].contains x)

/-- Reads a tag's characters. -/
def readUri (verbatim : Bool) : Nat → List Char → Cursor → Option (List Char × Cursor)
  | 0, _, _ => none
  | fuel + 1, text, c =>
    if c.atChar '%' then
      match readEncoded c with
      | none => none
      | some (x, c) => readUri verbatim fuel (text ++ x) c
    else if c.next (isUriChar verbatim) then readUri verbatim fuel (text ++ c.rest.take 1) (c.advance 1)
    else some (text, c)

/-- The handle at the start of a tag: an exclamation mark, word characters and, if there is one, another
exclamation mark. -/
def readHandle (c : Cursor) : Option (List Char × Cursor) :=
  if !c.atChar '!' then none
  else
    let (name, c) := (c.advance 1).takeWhile isWordChar
    if c.atChar '!' then some ('!' :: name ++ ['!'], c.advance 1) else some ('!' :: name, c)

/-- Reads a tag up to what follows it. -/
def readTagParts (c : Cursor) : Option (String × String × Cursor) := do
  if c.rest[1]? == some '<' then
    let (suffix, c) ← readUri true (c.rest.length + 1) [] (c.advance 2)
    if suffix.isEmpty || !c.atChar '>' then none
    else return ("", String.ofList suffix, c.advance 1)
  else
    let (handle, c) ← readHandle c
    if handle.length ≥ 2 && handle.getLast? == some '!' then
      let (suffix, c) ← readUri false (c.rest.length + 1) [] c
      if suffix.isEmpty then none else return (String.ofList handle, String.ofList suffix, c)
    else
      let (suffix, c) ← readUri false (c.rest.length + 1) (handle.drop 1) c
      return if suffix.isEmpty then ("", "!", c) else ("!", String.ofList suffix, c)

def readTag (c : Cursor) : Option (Token × Cursor) := do
  let inFlowEntry := fun (c : Cursor) => c.atChar ','
  let (handle, suffix, c) ← readTagParts c
  if c.blankAfter 0 || inFlowEntry c then return (.tag handle suffix, c) else none

/-- A tag, which in a block has to be followed by a blank. -/
def tag (s : Scanner) : Option Scanner :=
  s.inline fun c =>
    match readTag c with
    | some (t, c) => if c.blankAfter 0 || s.inFlow then some (t, c) else none
    | none => none

def quoted (s : Scanner) (single : Bool) : Option Scanner :=
  s.inline fun c =>
    (readQuoted single (c.rest.length + 1) [] (c.advance 1)).map fun (text, c) => (.scalar false text, c)

def block (s : Scanner) (folded : Bool) : Option Scanner := do
  let s ← s.dropPlace
  let (text, c) ← readBlock folded s.indent (s.cursor.advance 1)
  return ((s.allowKey true).moveTo c).push (.scalar false text)

def plain (s : Scanner) : Option Scanner := do
  let s ← s.notePlace
  let c := s.cursor
  let (text, broken, c) ← readPlain s.inFlow (s.indent + 1).toNat (c.rest.length + 1) [] Gap.none c
  return ((s.allowKey broken).moveTo c).push (.scalar true text)

/-- A number of at most nine digits. -/
def readNumber (c : Cursor) : Option (Nat × Cursor) :=
  let (digits, c) := c.takeWhile Char.isDigit
  if digits.length > 9 then none else (Text.number? 10 digits).map (·, c)

/-- Reads what follows the name of a directive. -/
def readDirectiveValue (name : String) (c : Cursor) : Option (Token × Cursor) :=
  match name with
  | "YAML" => do
    let (major, c) ← readNumber (c.skipWhile isBlank)
    if !c.atChar '.' then none
    else
      let (minor, c) ← readNumber (c.advance 1)
      return (.version major minor, c)
  | "TAG" => do
    let (handle, c) ← readHandle (c.skipWhile isBlank)
    if handle.getLast? != some '!' || !c.next isBlank then none
    else
      let (start, c) ← readUri true (c.rest.length + 1) [] (c.skipWhile isBlank)
      if start.isEmpty || !c.blankAfter 0 then none
      else return (.tagHandle (String.ofList handle) (String.ofList start), c)
  | _ => none

def directive (s : Scanner) : Option Scanner := do
  let s ← s.leaveDocument
  let (name, c) := (s.cursor.advance 1).takeWhile isWordChar
  if name.isEmpty || !c.blankAfter 0 then none
  else
    let (t, c) ← readDirectiveValue (String.ofList name) c
    let c := c.skipWhile isBlank
    let c := if c.atChar '#' then c.skipWhile (fun x => !Scalar.isBreak x) else c
    if c.atLineEnd then return (s.moveTo c.skipBreak).push t else none

def cannotStartPlain : List Char :=
  ['-', '?', ':', ',', '[', ']', '{', '}', '#', '&', '*', '!', '|', '>', '\'', '"', '%', '@', '\x60']

/-- Whether a plain text begins here. -/
def startsPlain (s : Scanner) : Bool :=
  let c := s.cursor
  match c.rest with
  | [] => false
  | x :: rest =>
    (!(c.blankAfter 0) && !cannotStartPlain.contains x) ||
      (x == '-' && !rest.head?.any isBlank) ||
      (!s.inFlow && (x == '?' || x == ':') && !c.blankAfter 1)

/-- Reads the next token from where it begins. -/
def readToken (s : Scanner) : Option Scanner :=
  let c := s.cursor
  let loose := s.inFlow || c.blankAfter 1
  match c.rest with
  | [] => none
  | x :: _ =>
    if c.column == 0 && x == '%' then s.directive
    else if c.atDocumentMark then s.documentMark (if x == '-' then .documentStart else .documentEnd)
    else if x == '[' then s.openFlow .flowSequence
    else if x == '{' then s.openFlow .flowMapping
    else if x == ']' then s.closeFlow .flowSequenceEnd
    else if x == '}' then s.closeFlow .flowMappingEnd
    else if x == ',' then s.flowEntry
    else if x == '-' && c.blankAfter 1 then s.blockEntry
    else if x == '?' && loose then s.explicitKey
    else if x == ':' && loose then s.value
    else if x == '*' then s.inline (readName .alias)
    else if x == '&' then s.inline (readName .anchor)
    else if x == '!' then s.tag
    else if x == '|' && !s.inFlow then s.block false
    else if x == '>' && !s.inFlow then s.block true
    else if x == '\'' then s.quoted true
    else if x == '"' then s.quoted false
    else if s.startsPlain then s.plain
    else none

/-- Reads all tokens. -/
def readAll : Nat → Scanner → Option (List Token)
  | 0, _ => none
  | fuel + 1, s =>
    match (skipToToken (s.cursor.rest.length + 1) s).dropStale with
    | none => none
    | some s =>
      let s := s.closeTo s.cursor.column
      if s.cursor.rest.isEmpty then ((s.closeTo (-1)).dropPlace).map (·.tokens.reverse)
      else
        match s.readToken with
        | none => none
        | some s => readAll fuel s

end Scanner

/-- The tokens of a text, if it can be cut into tokens. -/
def tokens? (text : String) : Option (List Token) :=
  let cs := text.toList
  if cs.all isAllowed then Scanner.readAll (cs.length + 2) (Scanner.start cs) else none

end CrossBuild.Yaml
