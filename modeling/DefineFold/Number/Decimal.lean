/-
  DefineFold.Number.Decimal

  Reading decimal numbers: an optional sign, digits with at most one point, at least one
  of them, and an optional exponent. The nearest double is taken, and zero or infinity
  where the number is out of range.
-/

import DefineFold.Number.Double
import DefineFold.Text.Radix

namespace DefineFold

/-- Negates if asked to. -/
def applySign (negative : Bool) (x : Float) : Float :=
  if negative then -x else x

/-- The double nearest to `m * 10 ^ e`. -/
def decimalValue (m : Nat) (e : Int) : Float :=
  let leading := ((Nat.toDigits 10 m).length : Int) + e
  if m = 0 then 0.0
  else if 400 < leading then Double.infinity
  else if leading < -400 then 0.0
  else if e < 0 then Float.ofScientific m true (-e).toNat
  else Float.ofScientific m false e.toNat

/-- A sign in front, and the rest. -/
def splitSign : List Char → Bool × List Char
  | '-' :: cs => (true, cs)
  | '+' :: cs => (false, cs)
  | cs => (false, cs)

/-- The digits in front, and the rest. -/
def splitDigits (cs : List Char) : List Char × List Char :=
  (cs.takeWhile isDigit, cs.dropWhile isDigit)

/-- The number that decimal digits write, zero for none. -/
def decimalDigits (cs : List Char) : Nat :=
  (digitsFrom? 10 0 cs).getD 0

/-- The exponent that must fill the rest of a number; no exponent counts as zero. -/
def exponentPart? : List Char → Option Int
  | [] => some 0
  | c :: cs =>
    if c = 'e' ∨ c = 'E' then
      let (negative, digits) := splitSign cs
      if digits.isEmpty ∨ (digits.all isDigit) = false then none
      else some (Double.withSign negative (decimalDigits digits))
    else none

/-- A decimal number without a sign. -/
def unsignedDecimal? (cs : List Char) : Option Float := do
  let (whole, rest) := splitDigits cs
  let (fraction, rest) :=
    match rest with
    | '.' :: more => splitDigits more
    | _ => ([], rest)
  if whole.isEmpty ∧ fraction.isEmpty then none
  else
    let e ← exponentPart? rest
    some (decimalValue (decimalDigits (whole ++ fraction)) (e - fraction.length))

/-- A decimal number with an optional sign. -/
def decimal? (cs : List Char) : Option Float :=
  let (negative, body) := splitSign cs
  (unsignedDecimal? body).map (applySign negative)

/-- A decimal number, or one of the words `inf`, `infinity` and `nan` in any case, with an
    optional sign. -/
def decimalOrWord? (cs : List Char) : Option Float :=
  let (negative, body) := splitSign cs
  let word := String.ofList (body.map lowerAscii)
  if word = "inf" ∨ word = "infinity" then some (applySign negative Double.infinity)
  else if word = "nan" then some Double.nan
  else (unsignedDecimal? body).map (applySign negative)

end DefineFold
