/-
  DefineFold.Text.Quoted

  String literals of JavaScript. `quote` writes a text as a double-quoted literal,
  `decodeQuoted?` reads a literal in any of the three quotes back to its text, and
  `unquote` takes a pair of equal quotes off without looking at what stands between.

  Both directions work on lists of characters. Reading gives `none` where the literal
  denotes no text of Unicode scalar values, and for the legacy octal escapes.
-/

import DefineFold.Text.Blank
import DefineFold.Text.Radix
import DefineFold.Text.Source

namespace DefineFold

/-! ## Writing -/

/-- One character as it stands inside a double-quoted literal. -/
def quoteChar (c : Char) : List Char :=
  if c = '"' then ['\\', '"']
  else if c = '\\' then ['\\', '\\']
  else if c = '\n' then ['\\', 'n']
  else if c = '\r' then ['\\', 'r']
  else if c = '\t' then ['\\', 't']
  else if c.toNat = 0x2028 then ['\\', 'u', '2', '0', '2', '8']
  else if c.toNat = 0x2029 then ['\\', 'u', '2', '0', '2', '9']
  else if c.toNat < 0x20 then '\\' :: 'x' :: hexText 2 c.toNat
  else [c]

/-- The characters of the double-quoted literal of a text. -/
def quoteChars (cs : List Char) : List Char :=
  '"' :: (cs.flatMap quoteChar ++ ['"'])

/-- The double-quoted literal of a text. -/
def quote (s : String) : String :=
  String.ofList (quoteChars s.toList)

/-! ## Reading -/

/-- Quotation marks that open a literal. -/
def isQuote (c : Char) : Bool :=
  c == '"' || c == '\'' || c == '\x60'

/-- The characters between an opening quote and the same quote at the very end. -/
def quotedBody? : List Char → Option (List Char)
  | [] => none
  | q :: rest =>
    if isQuote q ∧ rest.getLast? = some q then some rest.dropLast else none

/-- The text without white space around it, and without a pair of equal quotes. -/
def unquote (s : String) : String :=
  let cs := trimChars s.toList
  String.ofList ((quotedBody? cs).getD cs)

/-- The number that hexadecimal digits write; a plus sign may stand in front. -/
def hexCode? (cs : List Char) : Option Nat :=
  unsigned? 16 (Nat.pow 2 32) cs

/-- The character with the given number, if it is a Unicode scalar value. -/
def charOfCode? (n : Nat) : Option Char :=
  if n < 0xD800 ∨ (0xE000 ≤ n ∧ n < 0x110000) then some (Char.ofNat n) else none

/-- What stands before the next closing brace, and what after it. -/
def untilBrace? (seen : List Char) : List Char → Option (List Char × List Char)
  | [] => none
  | c :: cs => if c = '\x7d' then some (seen.reverse, cs) else untilBrace? (c :: seen) cs

/-- The code after the letter of a Unicode escape: four characters, or up to six bytes in
    braces. -/
def unicodeCode? : List Char → Option (Nat × List Char)
  | '\x7b' :: cs => do
    let (hex, rest) ← untilBrace? [] cs
    if hex.isEmpty ∨ 6 < byteLength hex then none
    else
      let code ← hexCode? hex
      some (code, rest)
  | a :: b :: c :: d :: rest => (hexCode? [a, b, c, d]).map fun code => (code, rest)
  | _ => none

/-- A Unicode escape after its letter: one code, or a high and a low surrogate in two
    escapes. -/
def unicodeEscape? (cs : List Char) : Option (Char × List Char) := do
  let (code, rest) ← unicodeCode? cs
  if 0xD800 ≤ code ∧ code < 0xDC00 then
    match rest with
    | '\\' :: 'u' :: more => do
      let (low, rest) ← unicodeCode? more
      if 0xDC00 ≤ low ∧ low < 0xE000 then
        let c ← charOfCode? (0x10000 + (code - 0xD800) * 0x400 + (low - 0xDC00))
        some (c, rest)
      else none
    | _ => none
  else
    let c ← charOfCode? code
    some (c, rest)

/-- The text of one escape sequence after its backslash, and what follows it. A line break
    after a backslash stands for nothing. -/
def escape? : List Char → Option (List Char × List Char)
  | [] => none
  | c :: rest =>
    match c with
    | 'n' => some (['\n'], rest)
    | 't' => some (['\t'], rest)
    | 'r' => some (['\r'], rest)
    | 'b' => some (['\x08'], rest)
    | 'f' => some (['\x0c'], rest)
    | 'v' => some (['\x0b'], rest)
    | 'x' =>
      match rest with
      | a :: b :: more => do
        let code ← hexCode? [a, b]
        let d ← charOfCode? code
        some ([d], more)
      | _ => none
    | 'u' => (unicodeEscape? rest).map fun (d, more) => ([d], more)
    | '\r' =>
      match rest with
      | '\n' :: more => some ([], more)
      | _ => some ([], rest)
    | '\n' => some ([], rest)
    | '\u2028' => some ([], rest)
    | '\u2029' => some ([], rest)
    | _ =>
      if c = '0' ∧ (rest.head?.any isDigit) = false then some (['\x00'], rest)
      else if isDigit c then none
      else some ([c], rest)

/-- Reads the body of a literal, with the text read so far in reverse. The first argument
    bounds the number of steps and is never short when it is the length of the body. -/
def decodeBody? : Nat → List Char → List Char → Option (List Char)
  | _, done, [] => some done.reverse
  | 0, _, _ :: _ => none
  | fuel + 1, done, c :: cs =>
    if c = '\\' then
      match escape? cs with
      | some (text, rest) => decodeBody? fuel (text.reverse ++ done) rest
      | none => none
    else decodeBody? fuel (c :: done) cs

/-- The characters that a literal denotes. -/
def decodeChars? (cs : List Char) : Option (List Char) := do
  let body ← quotedBody? (trimChars cs)
  decodeBody? body.length [] body

/-- The text that a literal denotes, white space around the literal apart. -/
def decodeQuoted? (s : String) : Option String :=
  (decodeChars? s.toList).map String.ofList

end DefineFold
