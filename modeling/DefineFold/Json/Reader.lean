/-
  DefineFold.Json.Reader

  JSON documents as configuration values. Keys keep their order; a repeated key keeps its
  first place and its last value. Integers of 64 bits are exact, all other numbers are
  doubles, computed from at most 64 bits of digits and one power of ten.
-/

import DefineFold.Number.Decimal
import DefineFold.Text.Quoted
import DefineFold.Value.Basic

namespace DefineFold

namespace Json

/-- White space between the parts of a document. -/
def isSpace (c : Char) : Bool :=
  c == ' ' || c == '\n' || c == '\t' || c == '\r'

/-- The characters after white space. -/
def skipSpace (cs : List Char) : List Char :=
  cs.dropWhile isSpace

/-! ## Numbers -/

/-- The largest digits that are taken into account. -/
def digitLimit : Nat :=
  Nat.pow 2 64

/-- Digits taken as long as they stay below the limit: the number, how many were taken, and
    how many more stand behind them. -/
def takeDigits (acc taken : Nat) : List Char → Nat × Nat × Nat
  | [] => (acc, taken, 0)
  | c :: cs =>
    let next := acc * 10 + (c.toNat - 48)
    if next < digitLimit then takeDigits next (taken + 1) cs else (acc, taken, cs.length + 1)

/-- Ten to the power of at most 308. -/
def tenTo (n : Nat) : Float :=
  Float.ofScientific 1 false n

/-- Scales by a power of ten, in steps of 308 for the very small; `none` when the number is
    out of range. The first argument bounds the steps. -/
def scale? : Nat → Float → Int → Option Float
  | 0, x, _ => some x
  | fuel + 1, x, e =>
    if e.natAbs ≤ 308 then
      if 0 ≤ e then
        let y := x * tenTo e.natAbs
        if y.isInf then none else some y
      else some (x / tenTo e.natAbs)
    else if x == 0.0 then some x
    else if 0 ≤ e then none
    else scale? fuel (x / tenTo 308) (e + 308)

/-- The double of a significand and a power of ten. After three steps a double is zero. -/
def doubleOf? (negative : Bool) (significand : Nat) (e : Int) : Option Float :=
  (scale? 8 (UInt64.ofNat significand).toFloat e).map (applySign negative)

/-- A written exponent: its value, zero if none is written, and the rest. `none` if the
    digits are missing. -/
def exponent? (cs : List Char) : Option (Option Int × List Char) :=
  match cs with
  | c :: more =>
    if c = 'e' ∨ c = 'E' then
      let (negative, digits) := splitSign more
      let (run, rest) := splitDigits digits
      if run.isEmpty then none
      else some (some (Double.withSign negative (decimalDigits run)), rest)
    else some (none, cs)
  | [] => some (none, [])

/-- The largest exponent that is told from an infinite one. -/
def exponentLimit : Nat :=
  Nat.pow 2 31

/-- A number and the rest. -/
def number? (cs : List Char) : Option (Value × List Char) := do
  let (negative, body) :=
    match cs with
    | '-' :: more => (true, more)
    | _ => (false, cs)
  let (whole, rest) := splitDigits body
  if whole.isEmpty ∨ (1 < whole.length ∧ whole.head? = some '0') then none
  else
    let (fraction, rest, point) :=
      match rest with
      | '.' :: more => ((splitDigits more).1, (splitDigits more).2, true)
      | _ => ([], rest, false)
    if point ∧ fraction.isEmpty then none
    else
      let (significand, _, dropped) := takeDigits 0 0 whole
      let (written, rest) ← exponent? rest
      if point = false ∧ written = none ∧ dropped = 0 then
        if negative = false then some (.integer significand, rest)
        else if 0 < significand ∧ significand ≤ Nat.pow 2 63 then
          some (.integer (-(significand : Int)), rest)
        else some (.double (-(UInt64.ofNat significand).toFloat), rest)
      else
        let (significand, kept, _) := takeDigits significand 0 fraction
        let e := written.getD 0
        if exponentLimit ≤ e.natAbs then
          if 0 < e ∧ significand ≠ 0 then none
          else some (.double (applySign negative 0.0), rest)
        else
          let x ← doubleOf? negative significand ((dropped : Int) - kept + e)
          some (.double x, rest)

/-! ## Texts -/

/-- Four hexadecimal digits. -/
def hex4? : List Char → Option (Nat × List Char)
  | a :: b :: c :: d :: rest => (digits? 16 [a, b, c, d]).map fun n => (n, rest)
  | _ => none

/-- The character of an escape after its backslash, and the rest. -/
def escape? : List Char → Option (Char × List Char)
  | '"' :: rest => some ('"', rest)
  | '\\' :: rest => some ('\\', rest)
  | '/' :: rest => some ('/', rest)
  | 'b' :: rest => some ('\x08', rest)
  | 'f' :: rest => some ('\x0c', rest)
  | 'n' :: rest => some ('\n', rest)
  | 'r' :: rest => some ('\r', rest)
  | 't' :: rest => some ('\t', rest)
  | 'u' :: rest => do
    let (high, rest) ← hex4? rest
    if 0xD800 ≤ high ∧ high < 0xDC00 then
      match rest with
      | '\\' :: 'u' :: more => do
        let (low, rest) ← hex4? more
        if 0xDC00 ≤ low ∧ low < 0xE000 then
          some (Char.ofNat (0x10000 + (high - 0xD800) * 0x400 + (low - 0xDC00)), rest)
        else none
      | _ => none
    else (charOfCode? high).map fun c => (c, rest)
  | _ => none

/-- A text after its opening quote, with the characters read so far in reverse. The first
    argument bounds the steps. -/
def text? : Nat → List Char → List Char → Option (String × List Char)
  | _, _, [] => none
  | 0, _, _ => none
  | fuel + 1, done, c :: cs =>
    if c = '"' then some (String.ofList done.reverse, cs)
    else if c = '\\' then
      match escape? cs with
      | some (d, rest) => text? fuel (d :: done) rest
      | none => none
    else if c.toNat < 0x20 then none
    else text? fuel (c :: done) cs

/-! ## Documents -/

/-- Puts a value under a key in entries that are held in reverse. -/
def insertReversed (key : String) (value : Value) (entries : Entries) : Entries :=
  if entries.hasKey key then entries.map fun e => if e.1 = key then (key, value) else e
  else (key, value) :: entries

/-- The rest after a given word. -/
def word? (word : String) (cs : List Char) : Option (List Char) :=
  let w := word.toList
  if w.isPrefixOf cs then some (cs.drop w.length) else none

mutual

/-- A value and the rest; containers may nest `depth` deep. The first argument bounds the
    steps of all three readers. -/
def value? : Nat → Nat → List Char → Option (Value × List Char)
  | 0, _, _ => none
  | fuel + 1, depth, cs =>
    match skipSpace cs with
    | 'n' :: rest => (word? "ull" rest).map fun rest => (.null, rest)
    | 't' :: rest => (word? "rue" rest).map fun rest => (.bool true, rest)
    | 'f' :: rest => (word? "alse" rest).map fun rest => (.bool false, rest)
    | '"' :: rest => (text? fuel [] rest).map fun (s, rest) => (.string s, rest)
    | '[' :: rest =>
      match depth, skipSpace rest with
      | 0, _ => none
      | _ + 1, ']' :: rest => some (.array [], rest)
      | depth + 1, rest => items? fuel depth [] rest
    | '\x7b' :: rest =>
      match depth, skipSpace rest with
      | 0, _ => none
      | _ + 1, '\x7d' :: rest => some (.object [], rest)
      | depth + 1, rest => members? fuel depth [] rest
    | rest => number? rest

/-- The items of an array up to its closing bracket, those read so far in reverse. -/
def items? : Nat → Nat → List Value → List Char → Option (Value × List Char)
  | 0, _, _, _ => none
  | fuel + 1, depth, done, cs =>
    match value? fuel depth cs with
    | none => none
    | some (v, rest) =>
      match skipSpace rest with
      | ',' :: rest => items? fuel depth (v :: done) rest
      | ']' :: rest => some (.array (v :: done).reverse, rest)
      | _ => none

/-- The members of an object up to its closing brace, those read so far in reverse. -/
def members? : Nat → Nat → Entries → List Char → Option (Value × List Char)
  | 0, _, _, _ => none
  | fuel + 1, depth, done, cs =>
    match skipSpace cs with
    | '"' :: rest =>
      match text? fuel [] rest with
      | none => none
      | some (key, rest) =>
        match skipSpace rest with
        | ':' :: rest =>
          match value? fuel depth rest with
          | none => none
          | some (v, rest) =>
            let done := insertReversed key v done
            match skipSpace rest with
            | ',' :: rest => members? fuel depth done rest
            | '\x7d' :: rest => some (.object done.reverse, rest)
            | _ => none
        | _ => none
    | _ => none

end

/-- The value of a document whose containers nest at most `depth` deep. -/
def parseWithin? (depth : Nat) (s : String) : Option Value := do
  let cs := s.toList
  let (v, rest) ← value? (2 * cs.length + 2) depth cs
  if (skipSpace rest).isEmpty then some v else none

/-- How deep the containers of a document may nest. -/
def depthLimit : Nat :=
  127

/-- The value of a document. -/
def parse? (s : String) : Option Value :=
  parseWithin? depthLimit s

end Json

end DefineFold
