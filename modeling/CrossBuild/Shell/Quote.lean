import CrossBuild.Text.Basic

/-!
Words written so that a POSIX shell reads them back as they are: a word of harmless characters stands
as it is, any other between single quotes, where a single quote itself is closed, escaped and reopened.
-/

namespace CrossBuild.Shell

/-- Characters without a meaning to a shell, wherever they stand in a word. -/
def isHarmless (c : Char) : Bool :=
  c.isAlphanum || c ∈ ['_', '-', '.', '/', ':', '=', ',', '+', '@', '%']

/-- The inside of a single-quoted word. -/
def quotedInside : List Char → List Char
  | [] => []
  | c :: rest => if c = '\'' then '\'' :: '\\' :: '\'' :: '\'' :: quotedInside rest else c :: quotedInside rest

def quoteChars (word : List Char) : List Char :=
  if !word.isEmpty && word.all isHarmless then word else '\'' :: quotedInside word ++ ['\'']

/-- A word as a shell has to see it. -/
def quote (word : String) : String := String.ofList (quoteChars word.toList)

/-- A list of words as one shell line. -/
def line (words : List String) : String := Text.join " " (words.map quote)

end CrossBuild.Shell
