/-
  DefineFold.Text.Radix

  Digits in a given radix, the natural numbers they write, and integers read from a
  text with the bounds of a fixed width.
-/

namespace DefineFold

/-- The value of a digit in a radix up to 36, letters of either case. -/
def digitValue? (radix : Nat) (c : Char) : Option Nat :=
  let n := c.toNat
  let value :=
    if 48 ≤ n ∧ n ≤ 57 then some (n - 48)
    else if 97 ≤ n ∧ n ≤ 122 then some (n - 87)
    else if 65 ≤ n ∧ n ≤ 90 then some (n - 55)
    else none
  value.filter (· < radix)

/-- Extends `acc` by the digits one after the other; `none` at the first other character. -/
def digitsFrom? (radix acc : Nat) : List Char → Option Nat
  | [] => some acc
  | c :: cs =>
    match digitValue? radix c with
    | some d => digitsFrom? radix (acc * radix + d) cs
    | none => none

/-- The number that a non-empty run of digits writes. -/
def digits? (radix : Nat) (cs : List Char) : Option Nat :=
  if cs.isEmpty then none else digitsFrom? radix 0 cs

/-- A number below `bound`: digits with at most one plus sign in front. -/
def unsigned? (radix bound : Nat) : List Char → Option Nat
  | '+' :: cs => (digits? radix cs).filter (· < bound)
  | cs => (digits? radix cs).filter (· < bound)

/-- A number in `-bound … bound - 1`: digits with at most one sign in front. -/
def signed? (radix bound : Nat) : List Char → Option Int
  | '-' :: cs => ((digits? radix cs).filter (· ≤ bound)).map fun n => -(n : Int)
  | '+' :: cs => ((digits? radix cs).filter (· < bound)).map Int.ofNat
  | cs => ((digits? radix cs).filter (· < bound)).map Int.ofNat

/-- Decimal digits. -/
def isDigit (c : Char) : Bool :=
  48 ≤ c.toNat && c.toNat ≤ 57

/-- The decimal text of a number. -/
def natText (n : Nat) : String :=
  String.ofList (Nat.toDigits 10 n)

/-- The decimal text of an integer, with a minus sign for the negative ones. -/
def intText : Int → String
  | .ofNat n => natText n
  | .negSucc n => "-" ++ natText (n + 1)

/-- A lower case hexadecimal digit. -/
def hexDigit (n : Nat) : Char :=
  Nat.digitChar (n % 16)

/-- `n` in hexadecimal with at least `width` digits, modulo `16 ^ width`. -/
def hexText : Nat → Nat → List Char
  | 0, _ => []
  | width + 1, n => hexText width (n / 16) ++ [hexDigit n]

/-- Lower case for the letters A to Z, everything else as it is. -/
def lowerAscii (c : Char) : Char :=
  if 65 ≤ c.toNat ∧ c.toNat ≤ 90 then Char.ofNat (c.toNat + 32) else c

end DefineFold
