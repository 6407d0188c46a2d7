import CrossBuild.Yaml.Scalar

/-!
A place in a text that is being read: what is still to come and how far it is, in characters, lines and
columns. The character classes are those of the reading side, where the end counts as a blank.
-/

namespace CrossBuild.Yaml

structure Cursor where
  rest : List Char
  index : Nat
  line : Nat
  column : Nat

def isBlank (c : Char) : Bool := c == ' ' || c == '\t'

/-- Letters, digits, underscores and hyphens. -/
def isWordChar (c : Char) : Bool := c.isAlphanum || c == '_' || c == '-'

namespace Cursor

/-- Whether the next character, if there is one, passes a test. -/
def next (c : Cursor) (p : Char → Bool) : Bool := c.rest.head?.any p

def atChar (c : Cursor) (x : Char) : Bool := c.next (· == x)

/-- Whether what is left after some characters begins with a blank or a line break, or is nothing. -/
def blankAfter (c : Cursor) (n : Nat) : Bool :=
  match c.rest.drop n with
  | [] => true
  | x :: _ => isBlank x || Scalar.isBreak x

/-- Whether the line ends here. -/
def atLineEnd (c : Cursor) : Bool :=
  match c.rest with
  | [] => true
  | x :: _ => Scalar.isBreak x

/-- Goes past some characters of one line. -/
def advance (c : Cursor) (n : Nat) : Cursor :=
  ⟨c.rest.drop n, c.index + n, c.line, c.column + n⟩

/-- Goes past the characters of one line that pass a test. -/
def skipWhile (c : Cursor) (p : Char → Bool) : Cursor := c.advance (c.rest.takeWhile p).length

/-- Reads the characters of one line that pass a test. -/
def takeWhile (c : Cursor) (p : Char → Bool) : List Char × Cursor := (c.rest.takeWhile p, c.skipWhile p)

/-- Reads a line break, of which the usual kinds are all read as a line feed. -/
def takeBreak (c : Cursor) : List Char × Cursor :=
  match c.rest with
  | '\r' :: '\n' :: rest => (['\n'], ⟨rest, c.index + 2, c.line + 1, 0⟩)
  | x :: rest =>
    if Scalar.isBreak x then
      ([if x == '\u2028' || x == '\u2029' then x else '\n'], ⟨rest, c.index + 1, c.line + 1, 0⟩)
    else ([], c)
  | [] => ([], c)

def skipBreak (c : Cursor) : Cursor := c.takeBreak.2

/-- Whether a line begins here with the marks that start or end a document. -/
def atDocumentMark (c : Cursor) : Bool :=
  c.column == 0 && (c.rest.take 3 == ['-', '-', '-'] || c.rest.take 3 == ['.', '.', '.']) && c.blankAfter 3

end Cursor

/-- Whether a document may hold a character. -/
def isAllowed (c : Char) : Bool :=
  let n := c.toNat
  n == 9 || n == 10 || n == 13 || (0x20 ≤ n && n ≤ 0x7E) || n == 0x85 || (0xA0 ≤ n && n ≤ 0xD7FF) ||
    (0xE000 ≤ n && n ≤ 0xFFFD) || 0x10000 ≤ n

end CrossBuild.Yaml
