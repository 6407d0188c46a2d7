import CrossBuild.Calendar.Date
import CrossBuild.Text.Basic

/-!
Moments as texts of the form `2024-02-29T12:00:00.250Z`, with no fraction where the second is whole.
Years have four digits; of more digits, or before year 0, they have a sign.
-/

namespace CrossBuild.Instant

/-- A year with at least four digits, and a sign where four digits do not hold it. -/
def yearText (year : Int) : String :=
  if year < 0 then "-" ++ Text.padded 4 year.natAbs
  else if year > 9999 then "+" ++ toString year
  else Text.padded 4 year.natAbs

/-- A fraction of a second in as few groups of three digits as tell all its nanoseconds. -/
def fractionText (nanos : Nat) : String :=
  if nanos == 0 then ""
  else if nanos % 1000000 == 0 then "." ++ Text.padded 3 (nanos / 1000000)
  else if nanos % 1000 == 0 then "." ++ Text.padded 6 (nanos / 1000)
  else "." ++ Text.padded 9 nanos

/-- The moment in universal time. A leap second is second 60. -/
def text (i : Instant) : String :=
  let d := i.date
  let s := i.secondOfDay
  let second := s % 60 + i.nanos / 1000000000
  yearText d.year ++ "-" ++ Text.padded 2 d.month ++ "-" ++ Text.padded 2 d.day ++ "T" ++
    Text.padded 2 (s / 3600) ++ ":" ++ Text.padded 2 (s / 60 % 60) ++ ":" ++ Text.padded 2 second ++
    fractionText (i.nanos % 1000000000) ++ "Z"

/-- Some digits at the start of a text, at least one number of them and at most another. -/
def digits? (least most : Nat) (cs : List Char) : Option (Nat × List Char) :=
  let ds := (cs.take most).takeWhile Char.isDigit
  if ds.length < least then none else (Text.digitsValue? 10 ds).map (·, cs.drop ds.length)

/-- Drops one of some characters. -/
def dropOne? (allowed : List Char) : List Char → Option (List Char)
  | [] => none
  | c :: rest => if allowed.contains c then some rest else none

/-- The moment of a day and a time of day some seconds ahead of universal time. Second 60 is kept as
a leap second. -/
def ofClock? (d : Date) (hour minute second : Nat) (nanos : Nat) (offset : Int) : Option Instant :=
  if d.isValid && hour < 24 && minute < 60 && second ≤ 60 && offset.natAbs < 86400 then
    let leap := second == 60
    let seconds := hour * 3600 + minute * 60 + (if leap then 59 else second)
    let moment : Instant := {
      seconds := d.toDays * secondsPerDay + seconds - offset
      nanos := if leap then nanos + 1000000000 else nanos }
    if Date.firstYear ≤ moment.date.year && moment.date.year ≤ Date.lastYear then some moment else none
  else none

/-- A year of four digits, or of more after a sign. -/
def year? (cs : List Char) : Option (Int × List Char) :=
  match cs with
  | '+' :: rest => (digits? 4 9 rest).map fun (n, rest) => (n, rest)
  | '-' :: rest => (digits? 4 9 rest).map fun (n, rest) => (-n, rest)
  | cs => (digits? 4 4 cs).map fun (n, rest) => (n, rest)

/-- A fraction of a second in nanoseconds, of which there may be none. -/
def fraction? (cs : List Char) : Option (Nat × List Char) :=
  match cs with
  | '.' :: rest =>
    let ds := rest.takeWhile Char.isDigit
    if ds.isEmpty then none
    else (Text.digitsValue? 10 ((ds ++ List.replicate 9 '0').take 9)).map (·, rest.drop ds.length)
  | cs => some (0, cs)

/-- A zone: `Z`, or hours and minutes ahead of universal time. -/
def zone? (cs : List Char) : Option (Int × List Char) :=
  match cs with
  | 'Z' :: rest | 'z' :: rest => some (0, rest)
  | sign :: rest => do
    let rest ← if sign == '+' || sign == '-' then some rest else none
    let (hours, rest) ← digits? 2 2 rest
    let rest ← dropOne? [':'] rest
    let (minutes, rest) ← digits? 2 2 rest
    let offset : Int := hours * 3600 + minutes * 60
    if minutes < 60 then some (if sign == '-' then -offset else offset, rest) else none
  | [] => none

/-- Reads a moment. -/
def ofText? (s : String) : Option Instant := do
  let (year, cs) ← year? s.toList
  let (month, cs) ← digits? 2 2 (← dropOne? ['-'] cs)
  let (day, cs) ← digits? 2 2 (← dropOne? ['-'] cs)
  let (hour, cs) ← digits? 2 2 (← dropOne? ['T', 't', ' '] cs)
  let (minute, cs) ← digits? 2 2 (← dropOne? [':'] cs)
  let (second, cs) ← digits? 2 2 (← dropOne? [':'] cs)
  let (nanos, cs) ← fraction? cs
  let (offset, cs) ← zone? cs
  if cs.isEmpty then ofClock? ⟨year, month, day⟩ hour minute second nanos offset else none

end CrossBuild.Instant
