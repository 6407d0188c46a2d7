import CrossBuild.Text.Basic

/-!
Texts that write numbers: whole numbers in several bases and decimal fractions with an exponent.
-/

namespace CrossBuild.Text

/-- The digits at the start of a text and what follows them. -/
def spanDigits (cs : List Char) : List Char × List Char := (cs.takeWhile Char.isDigit, cs.dropWhile Char.isDigit)

/-- A decimal number: its digits as one whole number and the power of ten that multiplies it. -/
structure Decimal where
  digits : Nat
  exponent : Int
  deriving DecidableEq, Repr

/-- The sign at the start of a text, true for minus, and what follows it. -/
def spanSign : List Char → Bool × List Char
  | '-' :: rest => (true, rest)
  | '+' :: rest => (false, rest)
  | cs => (false, cs)

/-- The exponent written after `e`, which is zero if nothing is written. -/
def exponent? : List Char → Option Int
  | [] => some 0
  | c :: rest =>
    if c != 'e' && c != 'E' then none
    else
      let (negative, digits) := spanSign rest
      if digits.all Char.isDigit then
        (number? 10 digits).map fun n => if negative then -(n : Int) else n
      else none

/-- Reads digits with at most one point, at least one digit, and an exponent. -/
def unsignedDecimal? (cs : List Char) : Option Decimal := do
  let (whole, rest) := spanDigits cs
  let (fraction, rest) :=
    match rest with
    | '.' :: tail => spanDigits tail
    | _ => ([], rest)
  let digits ← number? 10 (whole ++ fraction)
  return ⟨digits, (← exponent? rest) - fraction.length⟩

/-- Whether the nearest double-precision number is finite: below 2¹⁰²⁴ − 2⁹⁷⁰. -/
def Decimal.isFinite (d : Decimal) : Bool :=
  let count : Int := (Nat.repr d.digits).length
  if d.digits == 0 || count + d.exponent < 300 then true
  else if count + d.exponent > 320 then false
  else
    let limit := Nat.pow 2 1024 - Nat.pow 2 970
    if d.exponent ≥ 0 then d.digits * Nat.pow 10 d.exponent.toNat < limit
    else d.digits < limit * Nat.pow 10 (-d.exponent).toNat

end CrossBuild.Text
