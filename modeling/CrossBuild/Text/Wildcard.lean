/-!
Glob patterns over whole texts: `*` stands for any run of characters and `?` for exactly one. Nothing
else is special and both cross every separator.
-/

namespace CrossBuild.Text.Wildcard

/-- A text and all that is left of it after dropping characters from its front. -/
def suffixes : List Char → List (List Char)
  | [] => [[]]
  | c :: rest => (c :: rest) :: suffixes rest

/-- What follows one character at the front. -/
def dropChar? (c : Char) : List Char → Option (List Char)
  | [] => none
  | d :: rest => if c = d then some rest else none

/-- What a pattern leaves of some texts, each a suffix of the one before it. For a star the first text
leaves all that the others do. -/
def remainders : List Char → List (List Char) → List (List Char)
  | [], texts => texts
  | p :: pattern, texts =>
    if p = '*' then
      remainders pattern (match texts with | [] => [] | longest :: _ => suffixes longest)
    else if p = '?' then remainders pattern (texts.filterMap List.tail?)
    else remainders pattern (texts.filterMap (dropChar? p))

/-- Whether a text matches a pattern. -/
def matchesChars (pattern text : List Char) : Bool := (remainders pattern [text]).contains []

def isMatch (pattern text : String) : Bool := matchesChars pattern.toList text.toList

end CrossBuild.Text.Wildcard
