/-
  DefineFold.Yaml.Cursor

  Positions in a YAML text: the characters ahead with byte index, line and column, the classes
  of characters that the grammar speaks of, and the reading of line breaks.
-/

import DefineFold.Text.Radix
import DefineFold.Text.Source

namespace DefineFold

namespace Yaml

/-! ## Classes of characters -/

/-- Spaces and tabs. -/
def isBlank (c : Char) : Bool :=
  c == ' ' || c == '\t'

/-- Characters that end a line. -/
def isBreak (c : Char) : Bool :=
  c == '\n' || c == '\r' || c.toNat == 0x85 || c.toNat == 0x2028 || c.toNat == 0x2029

/-- Characters that end a word. -/
def isGap (c : Char) : Bool :=
  isBlank c || isBreak c

/-- Characters of anchors, directives and tag handles. -/
def isWord (c : Char) : Bool :=
  isDigit c || (97 ≤ c.toNat && c.toNat ≤ 122) || (65 ≤ c.toNat && c.toNat ≤ 90)
    || c == '_' || c == '-'

/-- The brackets and the comma of flow collections. -/
def isFlowMark (c : Char) : Bool :=
  c == ',' || c == '[' || c == ']' || c == '\x7b' || c == '\x7d'

/-- Characters that a document may hold at all. -/
def isAllowed (c : Char) : Bool :=
  let n := c.toNat
  n == 0x09 || n == 0x0A || n == 0x0D || (0x20 ≤ n && n ≤ 0x7E) || n == 0x85
    || (0xA0 ≤ n && n ≤ 0xD7FF) || (0xE000 ≤ n && n ≤ 0xFFFD) || 0x10000 ≤ n

/-- The byte order mark. -/
def isByteOrderMark (c : Char) : Bool :=
  c.toNat == 0xFEFF

/-! ## Positions -/

/-- A position in a text. -/
structure Cursor where
  rest : List Char
  /-- The number of bytes before the position. -/
  index : Nat
  line : Nat
  /-- The number of characters before the position on its line. -/
  column : Nat
  /-- The number of characters of the whole text, which bounds the steps of every reader. -/
  limit : Nat
deriving DecidableEq, Repr, Inhabited

namespace Cursor

/-- The beginning of a text. -/
def start (cs : List Char) : Cursor :=
  ⟨cs, 0, 0, 0, cs.length⟩

/-- The next character. -/
def peek? (c : Cursor) : Option Char :=
  c.rest.head?

/-- The character after `n` others. -/
def peekAt? (c : Cursor) (n : Nat) : Option Char :=
  c.rest[n]?

/-- Whether the next character satisfies a test. -/
def sees (c : Cursor) (p : Char → Bool) : Bool :=
  c.rest.head?.any p

/-- Whether the next character is the given one. -/
def seesChar (c : Cursor) (d : Char) : Bool :=
  c.sees (· == d)

/-- Whether the text ends here. -/
def atEnd (c : Cursor) : Bool :=
  c.rest.isEmpty

/-- Whether the character after `n` others ends a word, or the text ends there. -/
def gapAt (c : Cursor) (n : Nat) : Bool :=
  (c.rest[n]?).all isGap

/-- Past one character that ends no line. -/
def advance (c : Cursor) : Cursor :=
  match c.rest with
  | [] => c
  | d :: rest => { c with rest := rest, index := c.index + d.utf8Size, column := c.column + 1 }

/-- Past `n` characters that end no line. -/
def advanceBy : Nat → Cursor → Cursor
  | 0, c => c
  | n + 1, c => advanceBy n c.advance

/-- Past a line break of `size` characters. -/
def nextLine (c : Cursor) (size : Nat) : Cursor :=
  { c with
    rest := c.rest.drop size
    index := c.index + byteLength (c.rest.take size)
    line := c.line + 1
    column := 0 }

/-- The text of the line break ahead, and the position after it. The separators U+2028 and
    U+2029 stay what they are; every other break counts as a line feed. -/
def readBreak (c : Cursor) : List Char × Cursor :=
  match c.rest with
  | '\r' :: '\n' :: _ => (['\n'], c.nextLine 2)
  | d :: _ => (if d.toNat = 0x2028 ∨ d.toNat = 0x2029 then [d] else ['\n'], c.nextLine 1)
  | [] => ([], c)

/-- Past all characters that satisfy a test, none of which may end a line. -/
def skipWhile (p : Char → Bool) (c : Cursor) : Cursor :=
  advanceBy (c.rest.takeWhile p).length c

/-- The characters ahead that satisfy a test, none of which may end a line, and the position
    after them. -/
def takeWhile (p : Char → Bool) (c : Cursor) : List Char × Cursor :=
  (c.rest.takeWhile p, c.skipWhile p)

/-- Whether a line with a mark of three characters at its beginning ends or begins a
    document. -/
def atDocumentMark (c : Cursor) : Bool :=
  c.column == 0 && (c.rest.take 3 == ['-', '-', '-'] || c.rest.take 3 == ['.', '.', '.'])
    && c.gapAt 3

end Cursor

/-! ## Gaps between words -/

/-- The white space between two words of a scalar. -/
structure Gap where
  /-- Blanks before the first line break, in reverse. -/
  blanks : List Char
  /-- The first line break. -/
  firstBreak : List Char
  /-- The line breaks after the first, in reverse. -/
  moreBreaks : List Char
  /-- Whether there is a line break. -/
  broken : Bool
deriving DecidableEq, Repr, Inhabited

namespace Gap

/-- No white space. -/
def empty : Gap :=
  ⟨[], [], [], false⟩

/-- A line break that stands for nothing. -/
def escapedBreak : Gap :=
  ⟨[], [], [], true⟩

/-- What a gap stands for: its blanks, or folded line breaks. A single line feed becomes a
    space, and the first of several is dropped. -/
def text (g : Gap) : List Char :=
  if g.broken then
    if g.firstBreak = ['\n'] then
      if g.moreBreaks.isEmpty then [' '] else g.moreBreaks.reverse
    else g.firstBreak ++ g.moreBreaks.reverse
  else g.blanks.reverse

/-- Reads white space. On a line that is not the first a tab before column `indent` is an
    error. The first argument bounds the steps. -/
def read? (indent : Int) : Nat → Cursor → Gap → Option (Gap × Cursor)
  | 0, c, g => some (g, c)
  | fuel + 1, c, g =>
    match c.rest with
    | [] => some (g, c)
    | d :: _ =>
      if isBlank d then
        if g.broken ∧ (c.column : Int) < indent ∧ d = '\t' then none
        else if g.broken then read? indent fuel c.advance g
        else read? indent fuel c.advance { g with blanks := d :: g.blanks }
      else if isBreak d then
        let (line, next) := c.readBreak
        if g.broken then read? indent fuel next { g with moreBreaks := line ++ g.moreBreaks }
        else read? indent fuel next { g with blanks := [], firstBreak := line, broken := true }
      else some (g, c)

end Gap

end Yaml

end DefineFold
