/-
  DefineFold.Number.Shortest

  The fewest decimal digits that read back as a given double, and of those the nearest.

  A double `m * 2 ^ q` is the nearest double to every real number of an interval around
  it, whose ends belong to it exactly when `m` is even. For one digit, two digits and so
  on up to seventeen, the two neighbours of the number on the decimal grid with that many
  digits are tested for lying in the interval.
-/

namespace DefineFold

/-- A decimal number `digits * 10 ^ exponent`. -/
structure Decimal where
  digits : Nat
  exponent : Int
deriving DecidableEq, Repr, Inhabited

namespace Shortest

/-- The least `j` from the given one on with `den ≤ num * 10 ^ j`, within `fuel` steps. -/
def leastShift (num den : Nat) : Nat → Nat → Nat
  | 0, j => j
  | fuel + 1, j => if den ≤ num * Nat.pow 10 j then j else leastShift num den fuel (j + 1)

/-- The exponent of the leading decimal digit of `num / den`. -/
def leadingExponent (num den : Nat) : Int :=
  if den ≤ num then ((Nat.toDigits 10 (num / den)).length : Int) - 1
  else -(leastShift num den 330 1 : Int)

/-- Powers of ten below the line of a fraction. -/
def downScale (k : Int) : Nat :=
  Nat.pow 10 (-k).toNat

/-- Powers of ten above the line of a fraction. -/
def upScale (k : Int) : Nat :=
  Nat.pow 10 k.toNat

/-- The interval of the numbers that round to a double, in quarters of its unit: the double
    is `4 * m` of them, times `num / den`. -/
structure Interval where
  low : Nat
  high : Nat
  closed : Bool
  centre : Nat
  num : Nat
  den : Nat
deriving Repr

/-- The interval around `m * 2 ^ q`. Below a power of two the doubles lie twice as close. -/
def interval (m : Nat) (q : Int) : Interval where
  low := if m = Nat.pow 2 52 ∧ -1074 < q then 4 * m - 1 else 4 * m - 2
  high := 4 * m + 2
  closed := m % 2 == 0
  centre := 4 * m
  num := Nat.pow 2 (q - 2).toNat
  den := Nat.pow 2 (2 - q).toNat

/-- Whether the decimal `d * 10 ^ k` lies in the interval. -/
def Interval.holds (i : Interval) (d : Nat) (k : Int) : Bool :=
  let x := d * upScale k * i.den
  let unit := downScale k * i.num
  if i.closed then i.low * unit ≤ x && x ≤ i.high * unit
  else i.low * unit < x && x < i.high * unit

/-- The better of the two neighbours of the number on the grid of `10 ^ k`, if one of them
    lies in the interval. Of two at the same distance the upper one is taken. -/
def Interval.onGrid? (i : Interval) (k : Int) : Option Decimal :=
  let x := i.centre * downScale k * i.num
  let unit := upScale k * i.den
  let d := x / unit
  let rest := x % unit
  match i.holds d k, i.holds (d + 1) k with
  | true, true => if 2 * rest < unit then some ⟨d, k⟩ else some ⟨d + 1, k⟩
  | true, false => some ⟨d, k⟩
  | false, true => some ⟨d + 1, k⟩
  | false, false => none

/-- The first grid with a hit, from the given exponent downwards. -/
def Interval.search (i : Interval) : Nat → Int → Decimal
  | 0, k => ⟨i.centre * downScale k * i.num / (upScale k * i.den), k⟩
  | fuel + 1, k =>
    match i.onGrid? k with
    | some found => found
    | none => i.search fuel (k - 1)

/-- Moves the zeros at the end of the digits into the exponent. -/
def stripZeros : Nat → Decimal → Decimal
  | 0, d => d
  | fuel + 1, d =>
    if d.digits ≠ 0 ∧ d.digits % 10 = 0 then stripZeros fuel ⟨d.digits / 10, d.exponent + 1⟩
    else d

/-- The shortest decimal for the positive double `m * 2 ^ q`. -/
def decimal (m : Nat) (q : Int) : Decimal :=
  let i := interval m q
  stripZeros 20 (i.search 17 (leadingExponent (i.centre * i.num) i.den))

end Shortest

end DefineFold
