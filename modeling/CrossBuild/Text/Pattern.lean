/-!
Basic regular expressions: characters, sets of characters, the dot, stars after those and anchors.
-/

namespace CrossBuild.Text

/-- What stands for one character of a pattern. -/
inductive PatternAtom where
  | any
  | one (c : Char)
  | among (ranges : List (Char × Char)) (negated : Bool)
  deriving DecidableEq, Repr

def PatternAtom.accepts (c : Char) : PatternAtom → Bool
  | .any => true
  | .one d => c == d
  | .among ranges negated => (ranges.any fun (low, high) => low ≤ c && c ≤ high) != negated

/-- An atom, once or any number of times. -/
structure PatternItem where
  atom : PatternAtom
  starred : Bool
  deriving DecidableEq, Repr

structure Pattern where
  atStart : Bool
  atEnd : Bool
  items : List PatternItem
  deriving DecidableEq, Repr

namespace Pattern

/-- The ranges of a set up to its closing bracket, which may stand first as itself. -/
def ranges : Bool → List Char → Option (List (Char × Char) × List Char)
  | _, [] => none
  | first, low :: '-' :: high :: rest =>
    if low == ']' && !first then some ([], '-' :: high :: rest)
    else if high == ']' then some ([(low, low), ('-', '-')], rest)
    else (ranges false rest).map fun (rs, rest) => ((low, high) :: rs, rest)
  | first, c :: rest =>
    if c == ']' && !first then some ([], rest)
    else (ranges false rest).map fun (rs, rest) => ((c, c) :: rs, rest)

def atom? (cs : List Char) : Option (PatternAtom × List Char) :=
  match cs with
  | '.' :: rest => some (.any, rest)
  | '[' :: '^' :: rest => (ranges true rest).map fun (rs, rest) => (.among rs true, rest)
  | '[' :: rest => (ranges true rest).map fun (rs, rest) => (.among rs false, rest)
  | '\\' :: c :: rest => some (.one c, rest)
  | c :: rest => some (.one c, rest)
  | [] => none

/-- The items of a pattern and whether a dollar sign ends it. -/
def itemsFrom : Nat → List Char → Option (List PatternItem × Bool)
  | 0, _ => none
  | _, [] => some ([], false)
  | _, ['$'] => some ([], true)
  | fuel + 1, cs => do
    let (atom, rest) ← atom? cs
    let (starred, rest) := match rest with | '*' :: rest => (true, rest) | rest => (false, rest)
    let (items, atEnd) ← itemsFrom fuel rest
    return (⟨atom, starred⟩ :: items, atEnd)

def ofChars? (cs : List Char) : Option Pattern := do
  let (atStart, cs) := match cs with | '^' :: rest => (true, rest) | cs => (false, cs)
  let (items, atEnd) ← itemsFrom (cs.length + 1) cs
  return ⟨atStart, atEnd, items⟩

/-- What is left of a text after some leading characters that an atom accepts, fewest first. -/
def afterRun (atom : PatternAtom) : List Char → List (List Char)
  | [] => [[]]
  | c :: rest => (c :: rest) :: (if atom.accepts c then afterRun atom rest else [])

/-- What the longest choices for the items leave of a text. -/
def afterItems (toEnd : Bool) : List PatternItem → List Char → Option (List Char)
  | [], cs => if toEnd && !cs.isEmpty then none else some cs
  | item :: items, cs =>
    if item.starred then (afterRun item.atom cs).reverse.findSome? (afterItems toEnd items)
    else
      match cs with
      | c :: rest => if item.atom.accepts c then afterItems toEnd items rest else none
      | [] => none

/-- The longest run at the start of a text that an atom accepts and after which something goes on, with
what that gives. -/
def longestRun? {α : Type} (atom : PatternAtom) (goOn? : List Char → Option α) :
    List Char → Option (List Char × α)
  | [] => (goOn? []).map ([], ·)
  | c :: rest =>
    match if atom.accepts c then longestRun? atom goOn? rest else none with
    | some (run, found) => some (c :: run, found)
    | none => (goOn? (c :: rest)).map ([], ·)

/-- What each item takes of a text that they match at its start. An earlier item takes as much as it can
and gives back only what later ones need. -/
def taken? : List PatternItem → List Char → Option (List (List Char))
  | [], _ => some []
  | item :: items, cs =>
    if item.starred then (longestRun? item.atom (taken? items) cs).map fun (run, others) => run :: others
    else
      match cs with
      | c :: rest => if item.atom.accepts c then (taken? items rest).map ([c] :: ·) else none
      | [] => none

/-- What each item takes where they first match. -/
def firstTaken? (items : List PatternItem) : List Char → Option (List (List Char))
  | [] => taken? items []
  | c :: rest =>
    match taken? items (c :: rest) with
    | some found => some found
    | none => firstTaken? items rest

/-- Replaces matches by what `replace` makes of them: the first one or all. -/
def substitute (p : Pattern) (replace : List Char → List Char) (everywhere : Bool) :
    Nat → Bool → List Char → List Char
  | 0, _, cs => cs
  | fuel + 1, first, cs =>
    let found := if p.atStart && !first then none else afterItems p.atEnd p.items cs
    match found with
    | some rest =>
      let matched := cs.take (cs.length - rest.length)
      let (after, kept) :=
        match matched, rest with
        | [], c :: rest => (rest, [c])
        | _, rest => (rest, [])
      replace matched ++ kept ++
        (if everywhere && !rest.isEmpty then substitute p replace everywhere fuel false after else after)
    | none =>
      match cs with
      | c :: rest => c :: substitute p replace everywhere fuel false rest
      | [] => []

end Pattern

end CrossBuild.Text
