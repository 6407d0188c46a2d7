/-!
Plain operations on text: blank characters, words, lines and pieces between separators. Each works on
the list of characters, with a form on strings beside it.
-/

namespace CrossBuild.Text

/-- The Unicode property White_Space. -/
def isBlank (c : Char) : Bool :=
  let n := c.toNat
  (9 ≤ n && n ≤ 13) || n == 0x20 || n == 0x85 || n == 0xA0 || n == 0x1680 ||
    (0x2000 ≤ n && n ≤ 0x200A) || n == 0x2028 || n == 0x2029 || n == 0x202F || n == 0x205F || n == 0x3000

/-- The pieces between separators: one more than there are separators. -/
def pieces (isSeparator : Char → Bool) : List Char → List (List Char)
  | [] => [[]]
  | c :: rest =>
    if isSeparator c then [] :: pieces isSeparator rest
    else
      match pieces isSeparator rest with
      | [] => [[c]]
      | first :: others => (c :: first) :: others

/-- The pieces of a string between occurrences of one character. -/
def splitAt (separator : Char) (s : String) : List String :=
  (pieces (· == separator) s.toList).map String.ofList

/-- The longest runs without a separator. -/
def runs (isSeparator : Char → Bool) (cs : List Char) : List (List Char) :=
  (pieces isSeparator cs).filter (fun piece => !piece.isEmpty)

/-- The words of a text, which blank characters separate. -/
def words (s : String) : List String :=
  (runs isBlank s.toList).map String.ofList

def dropBlankEnd (cs : List Char) : List Char :=
  (cs.reverse.dropWhile isBlank).reverse

/-- The text without blank characters at either end. -/
def trimmed (cs : List Char) : List Char :=
  dropBlankEnd (cs.dropWhile isBlank)

def trim (s : String) : String := String.ofList (trimmed s.toList)

/-- Whether a text has no character that is not blank. -/
def allBlank (s : String) : Bool := s.toList.all isBlank

/-- A line without one carriage return at its end. -/
def dropReturn (line : List Char) : List Char :=
  if line.getLast? == some '\r' then line.dropLast else line

/-- Lines of characters: each ends at a line feed, with a carriage return before it left out, and what
follows the last line feed is a line if it is not empty. -/
def linesOf (cs : List Char) : List (List Char) :=
  let ps := pieces (· == '\n') cs
  let ended := ps.dropLast.map dropReturn
  match ps.getLast? with
  | some (c :: rest) => ended ++ [c :: rest]
  | _ => ended

def lines (s : String) : List String := (linesOf s.toList).map String.ofList

/-- What follows `start` in a text that begins with it. -/
def dropStart : List Char → List Char → Option (List Char)
  | [], cs => some cs
  | _ :: _, [] => none
  | s :: start, c :: cs => if s = c then dropStart start cs else none

/-- What follows `start` in a string that begins with it. -/
def after? (start s : String) : Option String :=
  (dropStart start.toList s.toList).map String.ofList

def startsWith (s start : String) : Bool := (dropStart start.toList s.toList).isSome

/-- What follows the first occurrence of `part`. -/
def afterFirst (part : List Char) : List Char → Option (List Char)
  | [] => dropStart part []
  | c :: rest =>
    match dropStart part (c :: rest) with
    | some tail => some tail
    | none => afterFirst part rest

/-- Whether `part` occurs in a text. -/
def occursIn (part s : String) : Bool := (afterFirst part.toList s.toList).isSome

/-- The texts one after another with a separator between them. -/
def join (separator : String) : List String → String
  | [] => ""
  | [s] => s
  | s :: rest => s ++ separator ++ join separator rest

def lowerHexDigit (n : Nat) : Char :=
  if n < 10 then Char.ofNat (48 + n) else Char.ofNat (87 + n)

def upperHexDigit (n : Nat) : Char :=
  if n < 10 then Char.ofNat (48 + n) else Char.ofNat (55 + n)

/-- The value of a digit in bases up to 36, with letters in either case. -/
def digitValue? (base : Nat) (c : Char) : Option Nat :=
  let n := c.toNat
  let value :=
    if 48 ≤ n && n ≤ 57 then some (n - 48)
    else if 97 ≤ n && n ≤ 122 then some (n - 87)
    else if 65 ≤ n && n ≤ 90 then some (n - 55)
    else none
  value.filter (· < base)

/-- The number that digits write, most significant first. -/
def digitsValue? (base : Nat) (cs : List Char) : Option Nat :=
  cs.foldl (fun acc c => do return (← acc) * base + (← digitValue? base c)) (some 0)

/-- The number that a text of at least one digit writes. -/
def number? (base : Nat) (cs : List Char) : Option Nat :=
  if cs.isEmpty then none else digitsValue? base cs

/-- A decimal number with zeros before it up to a width. -/
def padded (width n : Nat) : String :=
  let digits := (Nat.repr n).toList
  String.ofList (List.replicate (width - digits.length) '0' ++ digits)

end CrossBuild.Text
