import CrossBuild.Text.Numeral

/-!
How one text is written in YAML: as it is, between quotes of one of two kinds, or as a block of lines.
A text that would be read as something other than a text is quoted; a text of several lines is a block;
what neither form can hold stands between double quotes with escapes.
-/

namespace CrossBuild.Yaml.Scalar

def isBreak (c : Char) : Bool :=
  c == '\n' || c == '\r' || c == '\u0085' || c == '\u2028' || c == '\u2029'

/-- Blank in the grammar of plain texts: a space, a tab, a line break or a zero. -/
def isSeparator (c : Char) : Bool := c == ' ' || c == '\t' || isBreak c || c.toNat == 0

def isPrintable (c : Char) : Bool :=
  let n := c.toNat
  n == 10 || (0x20 ≤ n && n ≤ 0x7E) || (0xA0 ≤ n && n ≤ 0xD7FF) ||
    (0xE000 ≤ n && n ≤ 0xFFFD && n != 0xFEFF) || 0x10000 ≤ n

/-- Whether a text is a zero followed by more digits, which reads as no number. -/
def isZeroPadded (cs : List Char) : Bool :=
  match (Text.spanSign cs).2 with
  | '0' :: d :: rest => (d :: rest).all Char.isDigit
  | _ => false

/-- The bases that a text can name before its digits. -/
def baseMark? : List Char → Option (Nat × List Char)
  | '0' :: 'x' :: rest => some (16, rest)
  | '0' :: 'o' :: rest => some (8, rest)
  | '0' :: 'b' :: rest => some (2, rest)
  | _ => none

/-- Whether a text is a whole number of at most 128 bits, written in a base that it names. -/
def isBasedNumber (cs : List Char) : Bool :=
  let (negative, unsigned) := Text.spanSign cs
  match baseMark? unsigned with
  | none => false
  | some (base, digits) =>
    match Text.number? base digits with
    | none => false
    | some n => if negative then n ≤ Nat.pow 2 127 else n < Nat.pow 2 128

/-- Whether a text is a decimal number. -/
def isDecimal (cs : List Char) : Bool :=
  !isZeroPadded cs && (Text.unsignedDecimal? (Text.spanSign cs).2).any (·.isFinite)

def infinityWords : List (List Char) := [['.', 'i', 'n', 'f'], ['.', 'I', 'n', 'f'], ['.', 'I', 'N', 'F']]

/-- The words that read as a truth value, as nothing or as no number. -/
def reservedWords : List String :=
  ["", "null", "Null", "NULL", "~", "true", "True", "TRUE", "false", "False", "FALSE", ".nan", ".NaN", ".NAN"]

/-- Whether a text without quotes would read as something other than itself, or may be taken for it. -/
def needsQuotes (s : String) : Bool :=
  let cs := s.toList
  reservedWords.contains s || infinityWords.contains (Text.spanSign cs).2 || isZeroPadded cs ||
    isBasedNumber cs || isDecimal cs

/-- Whether some character is directly followed by another, each of its kind. -/
def hasAdjacent (p q : Char → Bool) : List Char → Bool
  | a :: b :: rest => (p a && q b) || hasAdjacent p q (b :: rest)
  | _ => false

def isSpace (c : Char) : Bool := c == ' '

/-- Whether a colon stands before a blank or at the end. -/
def hasEndingColon : List Char → Bool
  | [] => false
  | [c] => c == ':'
  | a :: b :: rest => (a == ':' && isSeparator b) || hasEndingColon (b :: rest)

def startMarks : List Char :=
  ['#', ',', '[', ']', '{', '}', '&', '*', '!', '|', '>', '\'', '"', '%', '@', '`']

/-- Whether the start of a text is a mark of the grammar. -/
def hasStartMark : List Char → Bool
  | '-' :: '-' :: '-' :: _ => true
  | '.' :: '.' :: '.' :: _ => true
  | c :: rest =>
    startMarks.contains c ||
      ((c == '?' || c == ':' || c == '-') && (match rest with | [] => true | d :: _ => isSeparator d))
  | [] => false

/-- Whether a text can stand as it is. -/
def allowsPlain (cs : List Char) : Bool :=
  !hasStartMark cs && !hasEndingColon cs && !hasAdjacent isSeparator (· == '#') cs &&
    !cs.head?.any isSpace && !cs.getLast?.any isSpace && !cs.any isBreak && cs.all isPrintable

/-- Whether a text can stand between single quotes. -/
def allowsSingle (cs : List Char) : Bool :=
  !hasAdjacent isBreak isSpace cs && !hasAdjacent isSpace isBreak cs && cs.all isPrintable

/-- Whether a text can be a block of lines. -/
def allowsBlock (cs : List Char) : Bool :=
  !cs.getLast?.any isSpace && !hasAdjacent isSpace isBreak cs && cs.all isPrintable

inductive Style where
  | plain
  | single
  | double
  | block
  deriving DecidableEq, Repr

/-- The first form that a text allows, beginning with the one that suits it. -/
def style (s : String) : Style :=
  let cs := s.toList
  if cs.contains '\n' then (if allowsBlock cs then .block else .double)
  else if !needsQuotes s && allowsPlain cs then .plain
  else if allowsSingle cs then .single
  else .double

def spaces (n : Nat) : List Char := List.replicate n ' '

/-- The inside of single quotes: a quote is doubled, and the text after a line break is indented. -/
def singleInside (indent : Nat) : Bool → List Char → List Char
  | afterBreak, [] => if afterBreak then spaces indent else []
  | afterBreak, c :: rest =>
    if isBreak c then c :: singleInside indent true rest
    else
      (if afterBreak then spaces indent else []) ++
        (if c == '\'' then ['\'', '\''] else [c]) ++ singleInside indent false rest

/-- A code point in upper-case hexadecimal digits. -/
def hexDigits : Nat → Nat → List Char
  | 0, _ => []
  | width + 1, n => hexDigits width (n / 16) ++ [Text.upperHexDigit (n % 16)]

/-- The escape of a character between double quotes. -/
def escape (c : Char) : List Char :=
  let n := c.toNat
  match n with
  | 0 => ['\\', '0']
  | 7 => ['\\', 'a']
  | 8 => ['\\', 'b']
  | 9 => ['\\', 't']
  | 10 => ['\\', 'n']
  | 11 => ['\\', 'v']
  | 12 => ['\\', 'f']
  | 13 => ['\\', 'r']
  | 0x1B => ['\\', 'e']
  | 0x22 => ['\\', '"']
  | 0x5C => ['\\', '\\']
  | 0x85 => ['\\', 'N']
  | 0x2028 => ['\\', 'L']
  | 0x2029 => ['\\', 'P']
  | _ =>
    if n ≤ 0xFF then '\\' :: 'x' :: hexDigits 2 n
    else if n ≤ 0xFFFF then '\\' :: 'u' :: hexDigits 4 n
    else '\\' :: 'U' :: hexDigits 8 n

def doubleInside : List Char → List Char
  | [] => []
  | c :: rest =>
    if !isPrintable c || isBreak c || c == '"' || c == '\\' then escape c ++ doubleInside rest
    else c :: doubleInside rest

/-- The header of a block: a depth if the text begins with a blank, and what the end of the text is. -/
def blockHeader (cs : List Char) : List Char :=
  let depth := if cs.head?.any (fun c => isSpace c || isBreak c) then ['2'] else []
  let ending :=
    match cs.reverse with
    | [] => ['-']
    | [last] => if isBreak last then ['+'] else ['-']
    | last :: before :: _ => if !isBreak last then ['-'] else if isBreak before then ['+'] else []
  '|' :: depth ++ ending

/-- The lines of a block, each that is not empty indented. -/
def blockLines (indent : Nat) : Bool → List Char → List Char
  | _, [] => []
  | atStart, c :: rest =>
    if isBreak c then c :: blockLines indent true rest
    else (if atStart then spaces indent else []) ++ c :: blockLines indent false rest

/-- A text as it is written, with further lines indented. -/
def write (indent : Nat) (s : String) : String :=
  let cs := s.toList
  match style s with
  | .plain => s
  | .single => String.ofList ('\'' :: singleInside indent false cs ++ ['\''])
  | .double => String.ofList ('"' :: doubleInside cs ++ ['"'])
  | .block => String.ofList (blockHeader cs ++ '\n' :: blockLines indent true cs)

/-- Whether a text can stand before the colon of its entry on one line. -/
def isShortKey (s : String) : Bool := s.utf8ByteSize ≤ 128 && !s.toList.any isBreak

end CrossBuild.Yaml.Scalar
