import CrossBuild.Calendar.Stamp

/-!
Dates as mail headers write them, such as `Fri, 23 Dec 2022 00:00:00 GMT`: the day of the week may be
left out, as may the seconds; blanks separate the fields; zones are offsets or the old names; comments
in parentheses may follow.
-/

namespace CrossBuild.MailDate

def dropBlanks (cs : List Char) : List Char := cs.dropWhile Text.isBlank

/-- What follows at least one blank. -/
def blanks? (cs : List Char) : Option (List Char) :=
  match cs with
  | c :: _ => if Text.isBlank c then some (dropBlanks cs) else none
  | [] => none

/-- The place of the next three letters, in any case, in a list of names. -/
def name? (names : List String) (cs : List Char) : Option (Nat × List Char) :=
  let word := String.ofList ((cs.take 3).map Char.toLower)
  (names.findIdx? (· == word)).map (·, cs.drop 3)

def weekdayNames : List String := ["sun", "mon", "tue", "wed", "thu", "fri", "sat"]

def monthNames : List String :=
  ["jan", "feb", "mar", "apr", "may", "jun", "jul", "aug", "sep", "oct", "nov", "dec"]

/-- A day of the week with the comma after it, if the text starts with one; a name without a comma is
an error. -/
def weekday? (cs : List Char) : Option (Option Nat × List Char) :=
  match name? weekdayNames cs with
  | none => some (none, cs)
  | some (day, rest) => (Instant.dropOne? [','] rest).map (some day, ·)

/-- Two-digit years are those from 1950 to 2049; three digits count from 1900. -/
def fullYear (count n : Nat) : Nat :=
  if count == 2 then (if n < 50 then n + 2000 else n + 1900)
  else if count == 3 then n + 1900
  else n

def year? (cs : List Char) : Option (Nat × List Char) := do
  let count := (cs.takeWhile Char.isDigit).length
  let (n, rest) ← Instant.digits? 2 count cs
  return (fullYear count n, rest)

/-- Seconds after a colon, of which there may be none. -/
def second? (cs : List Char) : Option (Nat × List Char) :=
  match dropBlanks cs with
  | ':' :: rest => Instant.digits? 2 2 rest
  | _ => some (0, cs)

/-- Hours ahead of universal time in the zones with a name. Single letters but J say nothing. -/
def namedZone? (name : List Char) : Option Int :=
  match String.ofList (name.map Char.toLower) with
  | "gmt" | "ut" | "z" => some 0
  | "edt" => some (-4)
  | "est" | "cdt" => some (-5)
  | "cst" | "mdt" => some (-6)
  | "mst" | "pdt" => some (-7)
  | "pst" => some (-8)
  | word => if name.length == 1 && word != "j" then some 0 else none

/-- A zone in seconds ahead of universal time. -/
def zone? (cs : List Char) : Option (Int × List Char) := do
  let name := cs.takeWhile Char.isAlpha
  if !name.isEmpty then
    return ((← namedZone? name) * 3600, cs.drop name.length)
  match cs with
  | [] => none
  | sign :: rest =>
    let rest ← if sign == '+' || sign == '-' then some rest else none
    let (hours, rest) ← Instant.digits? 2 2 rest
    let (minutes, rest) ← Instant.digits? 2 2 rest
    let offset : Int := hours * 3600 + minutes * 60
    if minutes < 60 then some (if sign == '-' then -offset else offset, rest) else none

/-- What follows a comment whose open parentheses are counted; a backslash takes the next character
as it is. -/
def afterComment? : Nat → List Char → Option (List Char)
  | _, [] => none
  | depth, '\\' :: _ :: rest => afterComment? depth rest
  | depth, '(' :: rest => afterComment? (depth + 1) rest
  | depth, ')' :: rest => if depth == 1 then some rest else afterComment? (depth - 1) rest
  | depth, _ :: rest => afterComment? depth rest

/-- Drops comments for as long as there are any. -/
def dropComments : Nat → List Char → List Char
  | 0, cs => cs
  | fuel + 1, cs =>
    match dropBlanks cs with
    | '(' :: rest =>
      match afterComment? 1 rest with
      | some tail => dropComments fuel tail
      | none => cs
    | _ => cs

/-- Reads a date. -/
def read? (s : String) : Option Instant := do
  let (weekday, cs) ← weekday? (dropBlanks s.toList)
  let (day, cs) ← Instant.digits? 1 2 (dropBlanks cs)
  let (month, cs) ← name? monthNames (← blanks? cs)
  let (year, cs) ← year? (← blanks? cs)
  let (hour, cs) ← Instant.digits? 2 2 (← blanks? cs)
  let (minute, cs) ← Instant.digits? 2 2 (dropBlanks (← Instant.dropOne? [':'] (dropBlanks cs)))
  let (second, cs) ← second? cs
  let (offset, cs) ← zone? (← blanks? cs)
  let date : Date := ⟨year, month + 1, day⟩
  if !(dropComments cs.length cs).isEmpty || weekday.any (· != date.weekday) then none
  else Instant.ofClock? date hour minute second 0 offset

end CrossBuild.MailDate
