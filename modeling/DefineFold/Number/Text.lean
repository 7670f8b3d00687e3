/-
  DefineFold.Number.Text

  The text of a double: the shortest digits that read back, written with a decimal point
  for numbers from 1e-6 up to below 1e21 and with an exponent outside of that range.
-/

import DefineFold.Number.Double
import DefineFold.Number.Shortest
import DefineFold.Text.Radix

namespace DefineFold

/-- The exponents of the leading digit for which a number is written without exponent. -/
structure NumberStyle where
  lowest : Int
  highest : Int

/-- Numbers from 1e-6 up to below 1e21 are written without exponent. -/
def numberStyle : NumberStyle :=
  ⟨-6, 20⟩

/-- Digits with the decimal point after the digit of exponent zero. -/
def positional (digits : List Char) (leading : Int) : List Char :=
  if leading < 0 then '0' :: '.' :: (List.replicate (-leading - 1).toNat '0' ++ digits)
  else
    let whole := leading.toNat + 1
    if digits.length ≤ whole then digits ++ List.replicate (whole - digits.length) '0'
    else digits.take whole ++ '.' :: digits.drop whole

/-- Digits with the decimal point after the first one, and the exponent with its sign. -/
def scientific (digits : List Char) (leading : Int) : List Char :=
  let mantissa :=
    match digits with
    | d :: e :: rest => d :: '.' :: e :: rest
    | short => short
  let sign := if leading < 0 then '-' else '+'
  mantissa ++ 'e' :: sign :: Nat.toDigits 10 leading.natAbs

/-- A decimal as text. -/
def decimalChars (style : NumberStyle) (d : Decimal) : List Char :=
  let digits := Nat.toDigits 10 d.digits
  let leading := d.exponent + digits.length - 1
  if style.lowest ≤ leading ∧ leading ≤ style.highest then positional digits leading
  else scientific digits leading

/-- The text of a number. Both zeros are written `0`. -/
def numberText (x : Float) : String :=
  match Double.parts x with
  | .nan => "NaN"
  | .infinite negative => if negative then "-Infinity" else "Infinity"
  | .finite negative m q =>
    if m = 0 then "0"
    else
      let body := decimalChars numberStyle (Shortest.decimal m q)
      String.ofList (if negative then '-' :: body else body)

/-- The text of a number as a literal, which keeps the sign of negative zero. -/
def numberLiteral (x : Float) : String :=
  match Double.parts x with
  | .finite true 0 _ => "-0"
  | _ => numberText x

end DefineFold
