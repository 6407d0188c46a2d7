import CrossBuild.Json.Basic

/-!
Reading JSON as its standard has it: nothing but one value with blanks around it, numbers without
leading zeros and not too large for a double, no unpaired surrogates, at most 127 levels of nesting.
-/

namespace CrossBuild.Json

def isSpace (c : Char) : Bool := c == ' ' || c == '\n' || c == '\t' || c == '\r'

def skipSpace (cs : List Char) : List Char := cs.dropWhile isSpace

/-- The characters of a number and what follows them. -/
def spanNumber (cs : List Char) : List Char × List Char :=
  let part := fun (c : Char) => c.isDigit || c == '-' || c == '+' || c == '.' || c == 'e' || c == 'E'
  (cs.takeWhile part, cs.dropWhile part)

/-- Whether digits begin with a zero and go on, or are none. -/
def badWhole (digits : List Char) : Bool :=
  match digits with
  | [] => true
  | '0' :: _ :: _ => true
  | _ => false

/-- Reads the characters of a number. -/
def number? (cs : List Char) : Option Json :=
  let (negative, unsigned) := match cs with | '-' :: rest => (true, rest) | _ => (false, cs)
  let (whole, rest) := Text.spanDigits unsigned
  if badWhole whole then none
  else
    let fractionMissing := match rest with | '.' :: c :: _ => !c.isDigit | ['.'] => true | _ => false
    match Text.unsignedDecimal? unsigned with
    | none => none
    | some d =>
      if fractionMissing || !d.isFinite then none
      else if rest.isEmpty then some (.int (if negative then -(d.digits : Int) else d.digits))
      else some .fraction

/-- The value of four hexadecimal digits. -/
def unit? (a b c d : Char) : Option Nat := Text.number? 16 [a, b, c, d]

def escaped? : Char → Option Char
  | '"' => some '"'
  | '\\' => some '\\'
  | '/' => some '/'
  | 'b' => some '\x08'
  | 'f' => some '\x0c'
  | 'n' => some '\n'
  | 'r' => some '\r'
  | 't' => some '\t'
  | _ => none

/-- Reads the inside of a text up to its closing quote, given what was read before in reverse. -/
def readText (acc : List Char) : List Char → Option (String × List Char)
  | [] => none
  | '"' :: rest => some (String.ofList acc.reverse, rest)
  | '\\' :: 'u' :: a :: b :: c :: d :: rest =>
    match unit? a b c d with
    | none => none
    | some high =>
      if high < 0xD800 || 0xE000 ≤ high then readText (Char.ofNat high :: acc) rest
      else if 0xDC00 ≤ high then none
      else
        match rest with
        | '\\' :: 'u' :: e :: f :: g :: h :: rest =>
          match unit? e f g h with
          | none => none
          | some low =>
            if low < 0xDC00 || 0xE000 ≤ low then none
            else readText (Char.ofNat (0x10000 + (high - 0xD800) * 1024 + (low - 0xDC00)) :: acc) rest
        | _ => none
  | '\\' :: c :: rest =>
    match escaped? c with
    | none => none
    | some e => readText (e :: acc) rest
  | c :: rest => if c.toNat < 0x20 then none else readText (c :: acc) rest

mutual

/-- Reads a value. The fuel bounds the steps, the depth the nesting that is left. -/
def readValue : Nat → Nat → List Char → Option (Json × List Char)
  | 0, _, _ => none
  | fuel + 1, depth, cs =>
    match skipSpace cs with
    | '[' :: rest =>
      match depth with
      | 0 => none
      | depth + 1 =>
        match skipSpace rest with
        | ']' :: rest => some (.array [], rest)
        | rest => (readItems fuel depth rest).map fun (items, rest) => (.array items, rest)
    | '\x7b' :: rest =>
      match depth with
      | 0 => none
      | depth + 1 =>
        match skipSpace rest with
        | '\x7d' :: rest => some (.object [], rest)
        | rest => (readEntries fuel depth rest).map fun (entries, rest) => (.object entries, rest)
    | '"' :: rest => (readText [] rest).map fun (s, rest) => (.text s, rest)
    | 't' :: 'r' :: 'u' :: 'e' :: rest => some (.bool true, rest)
    | 'f' :: 'a' :: 'l' :: 's' :: 'e' :: rest => some (.bool false, rest)
    | 'n' :: 'u' :: 'l' :: 'l' :: rest => some (.null, rest)
    | cs =>
      let (written, rest) := spanNumber cs
      (number? written).map (·, rest)

/-- Reads at least one item, up to the end of the array. -/
def readItems : Nat → Nat → List Char → Option (List Json × List Char)
  | 0, _, _ => none
  | fuel + 1, depth, cs => do
    let (item, rest) ← readValue fuel depth cs
    match skipSpace rest with
    | ',' :: rest =>
      let (items, rest) ← readItems fuel depth rest
      return (item :: items, rest)
    | ']' :: rest => return ([item], rest)
    | _ => none

/-- Reads at least one entry, up to the end of the object. -/
def readEntries : Nat → Nat → List Char → Option (List (String × Json) × List Char)
  | 0, _, _ => none
  | fuel + 1, depth, cs => do
    let '"' :: rest := skipSpace cs | none
    let (key, rest) ← readText [] rest
    let ':' :: rest := skipSpace rest | none
    let (value, rest) ← readValue fuel depth rest
    match skipSpace rest with
    | ',' :: rest =>
      let (entries, rest) ← readEntries fuel depth rest
      return ((key, value) :: entries, rest)
    | '\x7d' :: rest => return ([(key, value)], rest)
    | _ => none

end

/-- How many levels of nesting are read. -/
def depthLimit : Nat := 127

/-- The value that a text writes. -/
def ofString? (s : String) : Option Json :=
  let cs := s.toList
  match readValue (2 * cs.length + 2) depthLimit cs with
  | some (value, rest) => if (skipSpace rest).isEmpty then some value else none
  | none => none

end CrossBuild.Json
