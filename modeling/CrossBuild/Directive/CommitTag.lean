import CrossBuild.Text.Basic
import CrossBuild.Text.Pattern

/-!
Directives embedded in commit messages as `[ci …]`: a bracket, any number of spaces, `ci` with one space,
the tag and a closing bracket, all on one line. The first match counts, and in it the tag takes as much as
it can.
-/

namespace CrossBuild.CommitTag

open Text

/-- What stands before a tag. -/
def opening : List PatternItem :=
  [⟨.one '[', false⟩, ⟨.one ' ', true⟩, ⟨.one 'c', false⟩, ⟨.one 'i', false⟩, ⟨.one ' ', false⟩]

/-- The tag: anything that is on one line. -/
def tag : PatternItem := ⟨.among [('\n', '\n')] true, true⟩

/-- What stands after a tag. -/
def closing : List PatternItem := [⟨.one ' ', true⟩, ⟨.one ']', false⟩]

/-- What the tag takes of a text. -/
def find? (cs : List Char) : Option (List Char) :=
  (Pattern.firstTaken? (opening ++ tag :: closing) cs).bind fun taken => taken[opening.length]?

/-- The directive text in a commit message, without blanks around it. -/
def ofMessage? (message : String) : Option String :=
  (find? message.toList).map fun tag => String.ofList (trimmed tag)

end CrossBuild.CommitTag
