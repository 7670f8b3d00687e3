/-
  DefineFold.Number.Double

  A double read as an exact number. `parts` takes the 64 bits apart into a sign, a
  mantissa and a binary exponent, and `ofParts` puts an exactly representable number
  back together. Truncation and the remainder are computed on these integers, so neither
  of them rounds.
-/

namespace DefineFold

/-- What a double stands for. `finite s m e` is `m * 2 ^ e`, negative if `s`. -/
inductive DoubleParts where
  | nan
  | infinite (negative : Bool)
  | finite (negative : Bool) (mantissa : Nat) (exponent : Int)
deriving DecidableEq, Repr

namespace Double

/-- Takes the bits of a double apart. -/
def parts (x : Float) : DoubleParts :=
  let bits := x.toBits.toNat
  let negative := decide (Nat.pow 2 63 ≤ bits)
  let field : Nat := bits / Nat.pow 2 52 % Nat.pow 2 11
  let fraction : Nat := bits % Nat.pow 2 52
  if field = 2047 then
    if fraction = 0 then .infinite negative else .nan
  else if field = 0 then .finite negative fraction (-1074)
  else .finite negative (Nat.pow 2 52 + fraction) ((field : Int) - 1075)

/-- The double `mantissa * 2 ^ exponent`, for a mantissa below `2 ^ 53` and an exponent from
    -1074 on such that the product is in range. -/
def ofParts (negative : Bool) (mantissa : Nat) (exponent : Int) : Float :=
  let sign := if negative then Nat.pow 2 63 else 0
  let top := Nat.log2 mantissa
  let field := exponent + top + 1023
  let low :=
    if mantissa = 0 then 0
    else if field ≤ 0 then mantissa * Nat.pow 2 (exponent + 1074).toNat
    else field.toNat * Nat.pow 2 52 + (mantissa * Nat.pow 2 (52 - top) - Nat.pow 2 52)
  Float.ofBits (UInt64.ofNat (sign + low))

/-- The quiet NaN. -/
def nan : Float :=
  Float.ofBits 0x7FF8000000000000

/-- Positive infinity. -/
def infinity : Float :=
  Float.ofBits 0x7FF0000000000000

/-- Negative infinity. -/
def negInfinity : Float :=
  Float.ofBits 0xFFF0000000000000

/-- An integer with the given sign and absolute value. -/
def withSign (negative : Bool) (n : Nat) : Int :=
  if negative then -(n : Int) else n

/-- The number without its fraction, with its sign. A number without bits behind the point is
    left as it is. -/
def trunc (x : Float) : Float :=
  match parts x with
  | .finite negative m e =>
    if 0 ≤ e then x else ofParts negative (m / Nat.pow 2 (-e).toNat) 0
  | _ => x

/-- The remainder of dividing by truncation, with the sign of the dividend. It is not a
    number for an infinite dividend or a divisor of zero. -/
def remainder (x y : Float) : Float :=
  match parts x, parts y with
  | .finite negative m e, .finite _ m' e' =>
    if m' = 0 then nan
    else
      let low := min e e'
      let r := (m * Nat.pow 2 (e - low).toNat) % (m' * Nat.pow 2 (e' - low).toNat)
      ofParts negative r low
  | .finite _ _ _, .infinite _ => x
  | _, _ => nan

/-- The remainder that is not negative, as long as nothing is rounded: a negative remainder is
    brought up by the divisor. -/
def remEuclid (x y : Float) : Float :=
  let r := remainder x y
  if r < 0.0 then r + y.abs else r

/-- The low 32 bits of a number without its fraction, in two's complement; zeros for a number that
    is not finite. -/
def word32 (x : Float) : BitVec 32 :=
  if !x.isFinite then 0
  else (remEuclid (trunc x) 4294967296.0).toUInt32.toBitVec

end Double

end DefineFold
