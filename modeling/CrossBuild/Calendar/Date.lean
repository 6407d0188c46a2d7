/-!
Days of the calendar, as year, month and day or as a count of days from 1 January 1970, and moments
on the line of time.
-/

namespace CrossBuild

/-- A day of the calendar that leap years repeat every 400 years. -/
structure Date where
  year : Int
  month : Nat
  day : Nat
  deriving DecidableEq, Repr

namespace Date

def isLeap (year : Int) : Bool := year % 4 == 0 && (year % 100 != 0 || year % 400 == 0)

def daysInMonth (year : Int) (month : Nat) : Nat :=
  if month == 2 then (if isLeap year then 29 else 28)
  else if month == 4 || month == 6 || month == 9 || month == 11 then 30
  else 31

/-- The years that dates are kept in. -/
def lastYear : Int := 262142

def firstYear : Int := -262143

def isValid (d : Date) : Bool :=
  firstYear ≤ d.year && d.year ≤ lastYear && 1 ≤ d.month && d.month ≤ 12 && 1 ≤ d.day &&
    d.day ≤ daysInMonth d.year d.month

/-- Days from 1 January 1970. Years are counted from March, so that a leap day is a year's last. -/
def toDays (d : Date) : Int :=
  let y := if d.month ≤ 2 then d.year - 1 else d.year
  let era := y.fdiv 400
  let yearOfEra := y - era * 400
  let monthFromMarch : Int := (d.month + 9) % 12
  let dayOfYear := (153 * monthFromMarch + 2) / 5 + d.day - 1
  let dayOfEra := yearOfEra * 365 + yearOfEra / 4 - yearOfEra / 100 + dayOfYear
  era * 146097 + dayOfEra - 719468

/-- The day that is so many days from 1 January 1970. -/
def ofDays (days : Int) : Date :=
  let z := days + 719468
  let era := z.fdiv 146097
  let dayOfEra := z - era * 146097
  let yearOfEra := (dayOfEra - dayOfEra / 1460 + dayOfEra / 36524 - dayOfEra / 146096) / 365
  let dayOfYear := dayOfEra - (365 * yearOfEra + yearOfEra / 4 - yearOfEra / 100)
  let monthFromMarch := (5 * dayOfYear + 2) / 153
  let day := dayOfYear - (153 * monthFromMarch + 2) / 5 + 1
  let month := if monthFromMarch < 10 then monthFromMarch + 3 else monthFromMarch - 9
  let year := yearOfEra + era * 400 + (if month ≤ 2 then 1 else 0)
  ⟨year, month.toNat, day.toNat⟩

/-- The day of the week, from 0 for Sunday. -/
def weekday (d : Date) : Nat := ((d.toDays + 4) % 7).toNat

end Date

/-- A moment: whole seconds from the start of 1970 and nanoseconds on top, which are more than a
second's worth only within a leap second. -/
structure Instant where
  seconds : Int
  nanos : Nat
  deriving DecidableEq, Repr, Inhabited

namespace Instant

def secondsPerDay : Int := 86400

/-- Whether a moment comes after another one. -/
def isAfter (a b : Instant) : Bool :=
  a.seconds > b.seconds || (a.seconds == b.seconds && a.nanos > b.nanos)

def date (i : Instant) : Date := .ofDays (i.seconds.fdiv secondsPerDay)

def secondOfDay (i : Instant) : Nat := (i.seconds.fmod secondsPerDay).toNat

/-- The same time of day some days later, if the calendar goes that far. -/
def plusDays? (i : Instant) (days : Nat) : Option Instant :=
  let later : Instant := { i with seconds := i.seconds + days * secondsPerDay }
  if later.date.year ≤ Date.lastYear then some later else none

/-- Whole days from one moment to a later one. -/
def daysUntil (a b : Instant) : Int := (b.seconds - a.seconds).fdiv secondsPerDay

end Instant

end CrossBuild
