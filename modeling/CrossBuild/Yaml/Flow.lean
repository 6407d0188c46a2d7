import CrossBuild.Yaml.Cursor

/-!
Reading texts that may run over several lines: plain ones and those between quotes. Blanks and line
breaks between words are folded: a single break becomes a space, of several the first is dropped.
-/

namespace CrossBuild.Yaml

/-- Blanks and line breaks between two words of a text. -/
structure Gap where
  blanks : List Char
  firstBreak : List Char
  moreBreaks : List Char
  broken : Bool

namespace Gap

def none : Gap := ⟨[], [], [], false⟩

/-- What the gap stands for. -/
def fill (g : Gap) : List Char :=
  if !g.broken then g.blanks
  else if g.firstBreak == ['\n'] then (if g.moreBreaks.isEmpty then [' '] else g.moreBreaks)
  else g.firstBreak ++ g.moreBreaks

/-- Reads a gap. Tabs that indent a line to less than some column are refused. -/
def read (tabColumn : Nat) : Nat → Gap → Cursor → Option (Gap × Cursor)
  | 0, _, _ => Option.none
  | fuel + 1, g, c =>
    match c.rest with
    | [] => some (g, c)
    | x :: _ =>
      if isBlank x then
        if g.broken then
          if x == '\t' && c.column < tabColumn then Option.none else read tabColumn fuel g (c.advance 1)
        else read tabColumn fuel { g with blanks := g.blanks ++ [x] } (c.advance 1)
      else if Scalar.isBreak x then
        let (written, c) := c.takeBreak
        if g.broken then read tabColumn fuel { g with moreBreaks := g.moreBreaks ++ written } c
        else read tabColumn fuel ⟨[], written, g.moreBreaks, true⟩ c
      else some (g, c)

end Gap

/-- The characters of a plain text up to a blank or a mark that ends it. -/
def plainWord (inFlow : Bool) : List Char → Option (List Char)
  | [] => some []
  | x :: rest =>
    let flowMark := fun (y : Char) => inFlow && [',', '[', ']', '{', '}'].contains y
    let beforeBlank := match rest with | [] => true | y :: _ => isBlank y || Scalar.isBreak y
    if isBlank x || Scalar.isBreak x then some []
    else if x == ':' && inFlow && rest.head?.any (fun y => flowMark y || y == '?') then none
    else if (x == ':' && beforeBlank) || flowMark x then some []
    else (plainWord inFlow rest).map (x :: ·)

/-- Reads a plain text. The answer tells whether it was followed by a line break. -/
def readPlain (inFlow : Bool) (indent : Nat) :
    Nat → List Char → Gap → Cursor → Option (String × Bool × Cursor)
  | 0, _, _, _ => none
  | fuel + 1, text, g, c =>
    if c.atDocumentMark || c.atChar '#' then some (String.ofList text, g.broken, c)
    else
      match plainWord inFlow c.rest with
      | none => none
      | some word =>
        let (text, g) := if word.isEmpty then (text, g) else (text ++ g.fill ++ word, Gap.none)
        let c := c.advance word.length
        if !c.next (fun x => isBlank x || Scalar.isBreak x) then some (String.ofList text, g.broken, c)
        else
          match Gap.read indent (c.rest.length + 1) g c with
          | none => none
          | some (g, c) =>
            if !inFlow && c.column < indent then some (String.ofList text, g.broken, c)
            else readPlain inFlow indent fuel text g c

/-- The character that a letter after a backslash stands for. -/
def simpleEscape? : Char → Option Char
  | '0' => some '\x00'
  | 'a' => some '\x07'
  | 'b' => some '\x08'
  | 't' => some '\t'
  | '\t' => some '\t'
  | 'n' => some '\n'
  | 'v' => some '\x0b'
  | 'f' => some '\x0c'
  | 'r' => some '\r'
  | 'e' => some '\x1b'
  | ' ' => some ' '
  | '"' => some '"'
  | '/' => some '/'
  | '\\' => some '\\'
  | 'N' => some '\u0085'
  | '_' => some '\u00a0'
  | 'L' => some '\u2028'
  | 'P' => some '\u2029'
  | _ => none

/-- How many hexadecimal digits follow a letter after a backslash. -/
def codeLength? : Char → Option Nat
  | 'x' => some 2
  | 'u' => some 4
  | 'U' => some 8
  | _ => none

/-- The character that a backslash and what follows it stand for, and how many characters that is. -/
def readEscape : List Char → Option (Char × Nat)
  | [] => none
  | x :: rest =>
    match simpleEscape? x with
    | some y => some (y, 2)
    | none =>
      (codeLength? x).bind fun n =>
        if rest.length < n then none
        else
          (Text.number? 16 (rest.take n)).bind fun code =>
            if code ≤ 0x10FFFF && !(0xD800 ≤ code && code ≤ 0xDFFF) then some (Char.ofNat code, 2 + n)
            else none

/-- Reads the part of a quoted text up to a blank or its closing quote. A backslash at the end of a line
joins the next one. -/
def quotedWord (single : Bool) : Nat → List Char → Cursor → Option (List Char × Gap × Cursor)
  | 0, _, _ => none
  | fuel + 1, word, c =>
    match c.rest with
    | [] => some (word, Gap.none, c)
    | x :: rest =>
      if isBlank x || Scalar.isBreak x then some (word, Gap.none, c)
      else if single then
        if x == '\'' then
          if rest.head? == some '\'' then quotedWord single fuel (word ++ ['\'']) (c.advance 2)
          else some (word, Gap.none, c)
        else quotedWord single fuel (word ++ [x]) (c.advance 1)
      else if x == '"' then some (word, Gap.none, c)
      else if x == '\\' then
        if rest.head?.any Scalar.isBreak then
          some (word, { Gap.none with broken := true }, (c.advance 1).skipBreak)
        else
          match readEscape rest with
          | none => none
          | some (y, n) => quotedWord single fuel (word ++ [y]) (c.advance n)
      else quotedWord single fuel (word ++ [x]) (c.advance 1)

/-- Reads a quoted text after its opening quote. -/
def readQuoted (single : Bool) : Nat → List Char → Cursor → Option (String × Cursor)
  | 0, _, _ => none
  | fuel + 1, text, c =>
    if c.atDocumentMark || c.rest.isEmpty then none
    else
      match quotedWord single (c.rest.length + 1) [] c with
      | none => none
      | some (word, g, c) =>
        let text := text ++ word
        if c.atChar (if single then '\'' else '"') then some (String.ofList text, c.advance 1)
        else
          match Gap.read 0 (c.rest.length + 1) g c with
          | none => none
          | some (g, c) => readQuoted single fuel (text ++ g.fill) c

end CrossBuild.Yaml
