/-
  DefineFold.Primitive.Numeral

  Numbers read from text in the two ways that JavaScript has: the numeric literals of the
  language, and the conversion of a string to a number.
-/

import DefineFold.Number.Decimal
import DefineFold.Text.Blank

namespace DefineFold

/-! ## Literals -/

/-- Digits of a radix accumulated in doubles, one after the other. -/
def radixValueFrom? (radix : Nat) (acc : Float) : List Char → Option Float
  | [] => some acc
  | c :: cs =>
    match digitValue? radix c with
    | some d => radixValueFrom? radix (acc * Float.ofNat radix + Float.ofNat d) cs
    | none => none

/-- The double that a non-empty run of digits of a radix writes. -/
def radixValue? (radix : Nat) (cs : List Char) : Option Float :=
  if cs.isEmpty then none else radixValueFrom? radix 0.0 cs

/-- The radix that the first two characters announce, in lower case, and the digits. -/
def radixMark? : List Char → Option (Nat × List Char)
  | '0' :: 'x' :: rest => some (16, rest)
  | '0' :: 'o' :: rest => some (8, rest)
  | '0' :: 'b' :: rest => some (2, rest)
  | _ => none

/-- A numeric literal without its separators. A literal of digits with a zero in front is
    octal unless one of the digits is an 8 or a 9. -/
def plainNumeral? (cs : List Char) : Option Float :=
  if cs.getLast? = some 'n' then none
  else
    match radixMark? (cs.map lowerAscii) with
    | some (radix, digits) => radixValue? radix digits
    | none =>
      if 1 < cs.length ∧ cs.head? = some '0' ∧ cs.all isDigit then
        (radixValue? 8 cs.tail).or (decimalOrWord? cs)
      else decimalOrWord? cs

/-- The number of a numeric literal. Literals of big integers have none. -/
def numeral? (s : String) : Option Float :=
  plainNumeral? ((trimChars s.toList).filter (· ≠ '_'))

/-! ## Conversion of strings -/

/-- The radix that the first two characters announce, in either case, and the digits. -/
def radixPrefix? : List Char → Option (Nat × List Char)
  | '0' :: 'x' :: rest => some (16, rest)
  | '0' :: 'X' :: rest => some (16, rest)
  | '0' :: 'o' :: rest => some (8, rest)
  | '0' :: 'O' :: rest => some (8, rest)
  | '0' :: 'b' :: rest => some (2, rest)
  | '0' :: 'B' :: rest => some (2, rest)
  | _ => none

/-- The characters that decimal numbers are made of. -/
def isDecimalChar (c : Char) : Bool :=
  isDigit c || c == '.' || c == 'e' || c == 'E' || c == '+' || c == '-'

/-- The number that trimmed characters stand for. Prefixed digits are those of 64 bits. -/
def numberOfChars (cs : List Char) : Float :=
  if cs.isEmpty then 0.0
  else
    match radixPrefix? cs with
    | some (radix, digits) =>
      match unsigned? radix (Nat.pow 2 64) digits with
      | some n => (UInt64.ofNat n).toFloat
      | none => Double.nan
    | none =>
      if cs = "Infinity".toList ∨ cs = "+Infinity".toList then Double.infinity
      else if cs = "-Infinity".toList then Double.negInfinity
      else if cs.all isDecimalChar then (decimal? cs).getD Double.nan
      else Double.nan

/-- The number that a string converts to. The empty string converts to zero. -/
def numberOfText (s : String) : Float :=
  numberOfChars (trimChars s.toList)

end DefineFold
