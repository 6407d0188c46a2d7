import CrossBuild.Yaml.Token

/-!
The values that a YAML text holds. A name given to a value can stand for it later on; a name used inside
the very value that it names stands for nothing that could be read.
-/

namespace CrossBuild.Yaml

/-- A value that was read, with its tag. -/
inductive Node where
  | scalar (tag : Option String) (plain : Bool) (text : String)
  | sequence (tag : Option String) (items : List Node)
  | mapping (tag : Option String) (entries : List (Node × Node))
  /-- A value that contains itself here. -/
  | unfinished
  deriving Repr, Inhabited

namespace Node

/-- The names in use: for each the number of the value that had it last, and the values that are read
completely. -/
structure Names where
  numbers : List (String × Nat)
  finished : List (Nat × Node)
  count : Nat

def Names.none : Names := ⟨[], [], 0⟩

/-- Gives a name to the value that begins here. -/
def Names.open (n : Names) (name : Option String) : Names × Option Nat :=
  match name with
  | Option.none => (n, Option.none)
  | some name => ({ n with numbers := (name, n.count) :: n.numbers, count := n.count + 1 }, some n.count)

/-- Notes a value that is complete. -/
def Names.close (n : Names) (number : Option Nat) (node : Node) : Names :=
  match number with
  | Option.none => n
  | some number => { n with finished := (number, node) :: n.finished }

def Names.find? (n : Names) (name : String) : Option Node :=
  (n.numbers.find? (·.1 == name)).map fun (_, number) =>
    ((n.finished.find? (·.1 == number)).map (·.2)).getD .unfinished

/-- What is being read: the tokens to come, the names in use and what tag handles stand for. -/
structure Input where
  tokens : List Token
  names : Names
  handles : List (String × String)

namespace Input

def next? (i : Input) : Option Token := i.tokens.head?

def skip (i : Input) : Input := { i with tokens := i.tokens.drop 1 }

/-- Whether the next token is one of some. -/
def nextIn (i : Input) (tokens : List Token) : Bool := i.next?.any tokens.contains

end Input

/-- What stands before a value: a name and a tag, in either order. -/
structure Properties where
  anchor : Option String
  tag : Option (String × String)

def readProperties (i : Input) : Properties × Input :=
  match i.tokens with
  | .anchor name :: .tag handle suffix :: rest => (⟨some name, some (handle, suffix)⟩, { i with tokens := rest })
  | .tag handle suffix :: .anchor name :: rest => (⟨some name, some (handle, suffix)⟩, { i with tokens := rest })
  | .anchor name :: rest => (⟨some name, none⟩, { i with tokens := rest })
  | .tag handle suffix :: rest => (⟨none, some (handle, suffix)⟩, { i with tokens := rest })
  | _ => (⟨none, none⟩, i)

/-- The full tag. An unknown handle is refused. -/
def resolveTag (i : Input) : Option (String × String) → Option (Option String)
  | none => some none
  | some ("", suffix) => some (some suffix)
  | some (handle, suffix) => (i.handles.find? (·.1 == handle)).map fun (_, start) => some (start ++ suffix)

def empty : Node := .scalar none true ""

/-- A text, for which the tag of a lone exclamation mark means nothing. -/
def ofScalar (tag : Option String) (plain : Bool) (text : String) : Node :=
  .scalar (if tag == some "!" then none else tag) plain text

mutual

/-- Reads a value. Blocks are allowed or not, as are list items that are not indented. The fuel bounds
the steps, the depth the nesting that is left. -/
def read (block loose : Bool) : Nat → Nat → Input → Option (Node × Input)
  | 0, _, _ => none
  | fuel + 1, depth, i => do
    if let some (.alias name) := i.next? then
      return (← i.names.find? name, i.skip)
    let (properties, i) := readProperties i
    let tag ← resolveTag i properties.tag
    let (names, number) := i.names.open properties.anchor
    let i := { i with names }
    let finish := fun (node : Node) (i : Input) => some (node, { i with names := i.names.close number node })
    let ofItems := fun (r : Option (List Node × Input)) => r.bind fun (items, i) => finish (.sequence tag items) i
    let ofEntries := fun (r : Option (List (Node × Node) × Input)) =>
      r.bind fun (entries, i) => finish (.mapping tag entries) i
    match i.next?, depth with
    | some (.scalar plain text), _ => finish (ofScalar tag plain text) i.skip
    | some .blockEntry, depth + 1 =>
      if loose then ofItems (readLooseItems fuel depth i)
      else if properties.anchor.isSome || tag.isSome then finish (.scalar tag true "") i
      else none
    | some .flowSequence, depth + 1 => ofItems (readFlowItems true fuel depth i.skip)
    | some .flowMapping, depth + 1 => ofEntries (readFlowEntries true fuel depth i.skip)
    | some .blockSequence, depth + 1 =>
      if block then ofItems (readItems fuel depth i.skip) else none
    | some .blockMapping, depth + 1 =>
      if block then ofEntries (readEntries fuel depth i.skip) else none
    | some t, _ =>
      if [.blockEntry, .flowSequence, .flowMapping, .blockSequence, .blockMapping].contains t then none
      else if properties.anchor.isSome || tag.isSome then finish (ofScalar tag true "") i
      else none
    | none, _ => if properties.anchor.isSome || tag.isSome then finish (ofScalar tag true "") i else none
termination_by structural fuel => fuel

/-- A value, or nothing if one of some tokens comes next. -/
def readUnless (stop : List Token) (block loose : Bool) : Nat → Nat → Input → Option (Node × Input)
  | 0, _, _ => none
  | fuel + 1, depth, i => if i.nextIn stop || i.tokens.isEmpty then some (empty, i) else read block loose fuel depth i
termination_by structural fuel => fuel

/-- The items of an indented list. -/
def readItems : Nat → Nat → Input → Option (List Node × Input)
  | 0, _, _ => none
  | fuel + 1, depth, i =>
    match i.next? with
    | some .blockEntry => do
      let (item, i) ← readUnless [.blockEntry, .blockEnd] true false fuel depth i.skip
      let (items, i) ← readItems fuel depth i
      return (item :: items, i)
    | some .blockEnd => some ([], i.skip)
    | _ => none
termination_by structural fuel => fuel

/-- The items of a list at the depth of its key. -/
def readLooseItems : Nat → Nat → Input → Option (List Node × Input)
  | 0, _, _ => none
  | fuel + 1, depth, i =>
    match i.next? with
    | some .blockEntry => do
      let (item, i) ← readUnless [.blockEntry, .key, .value, .blockEnd] true false fuel depth i.skip
      let (items, i) ← readLooseItems fuel depth i
      return (item :: items, i)
    | _ => some ([], i)
termination_by structural fuel => fuel

/-- The entries of an indented table. -/
def readEntries : Nat → Nat → Input → Option (List (Node × Node) × Input)
  | 0, _, _ => none
  | fuel + 1, depth, i =>
    match i.next? with
    | some .key => do
      let (key, i) ← readUnless [.key, .value, .blockEnd] true true fuel depth i.skip
      let (value, i) ←
        if i.nextIn [.value] then readUnless [.key, .value, .blockEnd] true true fuel depth i.skip
        else some (empty, i)
      let (entries, i) ← readEntries fuel depth i
      return ((key, value) :: entries, i)
    | some .blockEnd => some ([], i.skip)
    | _ => none
termination_by structural fuel => fuel

/-- The items of a list in brackets. -/
def readFlowItems (first : Bool) : Nat → Nat → Input → Option (List Node × Input)
  | 0, _, _ => none
  | fuel + 1, depth, i => do
    if i.nextIn [.flowSequenceEnd] then return ([], i.skip)
    let i ← if first then some i else if i.nextIn [.flowEntry] then some i.skip else none
    if i.nextIn [.flowSequenceEnd] then return ([], i.skip)
    let (item, i) ← if i.nextIn [.key] then readPair fuel depth i.skip else read false false fuel depth i
    let (items, i) ← readFlowItems false fuel depth i
    return (item :: items, i)
termination_by structural fuel => fuel

/-- A table of one entry that is an item of a list in brackets. -/
def readPair : Nat → Nat → Input → Option (Node × Input)
  | 0, _, _ => none
  | fuel + 1, depth, i => do
    let stop := [.value, .flowEntry, .flowSequenceEnd]
    let depth ← match depth with | 0 => none | depth + 1 => some depth
    let (key, i) ← if i.nextIn stop then some (empty, i.skip) else read false false fuel depth i
    let (value, i) ←
      if i.nextIn [.value] then readUnless [.flowEntry, .flowSequenceEnd] false false fuel depth i.skip
      else some (empty, i)
    return (.mapping none [(key, value)], i)
termination_by structural fuel => fuel

/-- The entries of a table in braces. -/
def readFlowEntries (first : Bool) : Nat → Nat → Input → Option (List (Node × Node) × Input)
  | 0, _, _ => none
  | fuel + 1, depth, i => do
    if i.nextIn [.flowMappingEnd] then return ([], i.skip)
    let i ← if first then some i else if i.nextIn [.flowEntry] then some i.skip else none
    if i.nextIn [.flowMappingEnd] then return ([], i.skip)
    let ((key, value), i) ←
      if i.nextIn [.key] then readFlowEntry fuel depth i.skip
      else (read false false fuel depth i).map fun (key, i) => ((key, empty), i)
    let (entries, i) ← readFlowEntries false fuel depth i
    return ((key, value) :: entries, i)
termination_by structural fuel => fuel

/-- One entry of a table in braces, after the token that announces its key. -/
def readFlowEntry : Nat → Nat → Input → Option ((Node × Node) × Input)
  | 0, _, _ => none
  | fuel + 1, depth, i => do
    let (key, i) ← readUnless [.value, .flowEntry, .flowMappingEnd] false false fuel depth i
    let (value, i) ←
      if i.nextIn [.value] then readUnless [.flowEntry, .flowMappingEnd] false false fuel depth i.skip
      else some (empty, i)
    return ((key, value), i)
termination_by structural fuel => fuel

end

/-- How many levels of lists and tables are read. -/
def depthLimit : Nat := 128

/-- What tag handles stand for if nothing else is said. -/
def standardHandles : List (String × String) := [("!", "!"), ("!!", "tag:yaml.org,2002:")]

/-- Reads the directives before a document: at most one version, and handles of which none is given
twice. -/
def readDirectives (versions : Nat) (handles : List (String × String)) :
    List Token → Option (Nat × List (String × String) × List Token)
  | .version major minor :: rest =>
    if versions == 0 && major == 1 && (minor == 1 || minor == 2) then readDirectives 1 handles rest else none
  | .tagHandle handle start :: rest =>
    if handles.any (·.1 == handle) then none else readDirectives versions ((handle, start) :: handles) rest
  | tokens => some (versions, handles, tokens)

/-- Reads the one document of some tokens; none if there are no tokens at all. A value between two
document marks may be missing. -/
def ofTokens? (tokens : List Token) : Option (Option Node) := do
  if tokens.isEmpty then return none
  let (versions, handles, rest) ← readDirectives 0 [] tokens
  let announced := rest.head? == some .documentStart
  if !announced && (versions != 0 || !handles.isEmpty) then none
  else
    let stop := [.version 0 0, .documentStart, .documentEnd]
    let i : Input := ⟨if announced then rest.drop 1 else rest, .none, handles ++ standardHandles⟩
    let bare := i.tokens.isEmpty || i.nextIn stop ||
      (match i.next? with | some (.version ..) | some (.tagHandle ..) => true | _ => false)
    let (node, i) ←
      if announced && bare then some (empty, i)
      else read true false (4 * i.tokens.length + 4) depthLimit i
    if (i.tokens.dropWhile (· == .documentEnd)).isEmpty then return some node else none

/-- The value of a text that is one document. -/
def ofString? (text : String) : Option (Option Node) := (tokens? text).bind ofTokens?

end Node

end CrossBuild.Yaml
