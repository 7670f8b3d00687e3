/-
  DefineFold.Text.Units

  UTF-16 code units of a text and the order of texts by them. Characters above U+FFFF
  become a pair of surrogate units, so this order differs from the order of code points.
-/

namespace DefineFold

/-- The UTF-16 code units of one character. -/
def charUnits (c : Char) : List Nat :=
  let n := c.toNat
  if n < 0x10000 then [n]
  else [0xD800 + (n - 0x10000) / 0x400, 0xDC00 + (n - 0x10000) % 0x400]

/-- The UTF-16 code units of a text. -/
def units (s : String) : List Nat :=
  s.toList.flatMap charUnits

/-- The lexicographic order of two lists of code units. -/
def compareUnits : List Nat → List Nat → Ordering
  | [], [] => .eq
  | [], _ :: _ => .lt
  | _ :: _, [] => .gt
  | a :: as, b :: bs => if a < b then .lt else if b < a then .gt else compareUnits as bs

/-- The order of two texts by their UTF-16 code units. -/
def compareText (s t : String) : Ordering :=
  compareUnits (units s) (units t)

end DefineFold
