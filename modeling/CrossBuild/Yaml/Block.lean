import CrossBuild.Yaml.Cursor

/-!
Reading texts that are blocks of lines, kept as they are or folded. The header says how deep the lines
are indented, where they do not show it themselves, and what is done with line breaks at the end.
-/

namespace CrossBuild.Yaml

/-- What becomes of the line breaks at the end of a block. -/
inductive Chomping where
  | strip
  | clip
  | keep
  deriving DecidableEq

structure BlockHeader where
  chomping : Chomping
  /-- How much deeper than their parent the lines are, if the header says so. -/
  increment : Option Nat

/-- A sign that says what becomes of the end. -/
def Chomping.ofChar? (x : Char) : Option Chomping :=
  if x == '+' then some .keep else if x == '-' then some .strip else none

/-- A digit that says how deep the lines are. A zero is refused. -/
def increment? (x : Char) : Option (Option Nat) :=
  if x.isDigit then (if x == '0' then some none else some (some (x.toNat - 48))) else none

/-- Reads the rest of the header's line. -/
def finishHeader (h : BlockHeader) (c : Cursor) : Option (BlockHeader × Cursor) :=
  let c := c.skipWhile isBlank
  let c := if c.atChar '#' then c.skipWhile (fun x => !Scalar.isBreak x) else c
  if c.atLineEnd then some (h, c.skipBreak) else none

/-- Reads a header: a sign and a digit in either order, both of which may be missing. -/
def readHeader (c : Cursor) : Option (BlockHeader × Cursor) :=
  match c.rest with
  | [] => finishHeader ⟨.clip, none⟩ c
  | x :: rest =>
    match Chomping.ofChar? x, increment? x with
    | some chomping, _ =>
      match rest.head?.bind increment? with
      | some none => none
      | some (some n) => finishHeader ⟨chomping, some n⟩ (c.advance 2)
      | none => finishHeader ⟨chomping, none⟩ (c.advance 1)
    | none, some none => none
    | none, some (some n) =>
      match rest.head?.bind Chomping.ofChar? with
      | some chomping => finishHeader ⟨chomping, some n⟩ (c.advance 2)
      | none => finishHeader ⟨.clip, some n⟩ (c.advance 1)
    | none, none => finishHeader ⟨.clip, none⟩ c

/-- Reads empty lines and the indentation of the next line that is not empty. Answers the line breaks,
the deepest column seen and where it stopped. -/
def readEmptyLines (indent : Option Nat) : Nat → List Char → Nat → Cursor → Option (List Char × Nat × Cursor)
  | 0, _, _, _ => none
  | fuel + 1, breaks, deepest, c =>
    let width := (c.rest.takeWhile (· == ' ')).length
    let c := c.advance (match indent with | none => width | some n => min width (n - c.column))
    let deepest := max deepest c.column
    if (match indent with | none => true | some n => c.column < n) && c.atChar '\t' then none
    else if c.next Scalar.isBreak then
      let (written, c) := c.takeBreak
      readEmptyLines indent fuel (breaks ++ written) deepest c
    else some (breaks, deepest, c)

/-- What is read of a block: its text so far, the break that ended its last line, empty lines after
that, and whether the last line began with a blank. -/
structure BlockText where
  text : List Char
  lineBreak : List Char
  emptyLines : List Char
  afterBlank : Bool

/-- The text with the breaks before the next line, which are folded between two lines that do not begin
with blanks. -/
def BlockText.joined (folded beforeBlank : Bool) (b : BlockText) : List Char :=
  if folded && b.lineBreak == ['\n'] && !b.afterBlank && !beforeBlank then
    b.text ++ (if b.emptyLines.isEmpty then [' '] else []) ++ b.emptyLines
  else b.text ++ b.lineBreak ++ b.emptyLines

/-- Reads the lines of a block. -/
def readBlockLines (folded : Bool) (indent : Nat) : Nat → BlockText → Cursor → Option (BlockText × Cursor)
  | 0, _, _ => none
  | fuel + 1, b, c =>
    if c.column == indent && !c.rest.isEmpty then
      let beforeBlank := c.next isBlank
      let (line, c) := c.takeWhile (fun x => !Scalar.isBreak x)
      let text := b.joined folded beforeBlank ++ line
      let (lineBreak, c) := c.takeBreak
      match readEmptyLines (some indent) (c.rest.length + 1) [] 0 c with
      | none => none
      | some (emptyLines, _, c) => readBlockLines folded indent fuel ⟨text, lineBreak, emptyLines, beforeBlank⟩ c
    else some (b, c)

/-- Reads a block after its mark. The parent's column is one less than that of its entries. -/
def readBlock (folded : Bool) (parent : Int) (c : Cursor) : Option (String × Cursor) := do
  let (header, c) ← readHeader c
  let given := header.increment.map fun n => (max parent 0).toNat + n
  let (emptyLines, deepest, c) ← readEmptyLines given (c.rest.length + 1) [] 0 c
  let indent := given.getD (max (max deepest (parent + 1).toNat) 1)
  let (b, c) ← readBlockLines folded indent (c.rest.length + 1) ⟨[], [], emptyLines, false⟩ c
  let text :=
    match header.chomping with
    | .strip => b.text
    | .clip => b.text ++ b.lineBreak
    | .keep => b.text ++ b.lineBreak ++ b.emptyLines
  return (String.ofList text, c)

end CrossBuild.Yaml
