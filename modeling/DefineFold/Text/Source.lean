/-
  DefineFold.Text.Source

  A source text addressed by byte offsets. Offsets count the bytes of the text's
  UTF-8 form, so a slice exists only when both of its ends lie between characters.
-/

namespace DefineFold

/-! ## Byte lengths -/

/-- The number of bytes the characters take in UTF-8. -/
def byteLength (cs : List Char) : Nat :=
  cs.foldl (fun n c => n + c.utf8Size) 0

/-- The number of bytes a text takes in UTF-8. -/
def textLength (s : String) : Nat :=
  byteLength s.toList

/-- Splits off the characters that fill exactly `n` bytes, with `seen` in front of them in
    reverse. There is no such split past the end or inside a character. -/
def splitBytes? (seen : List Char) : List Char → Nat → Option (List Char × List Char)
  | cs, 0 => some (seen.reverse, cs)
  | [], _ + 1 => none
  | c :: cs, n + 1 =>
    if c.utf8Size ≤ n + 1 then splitBytes? (c :: seen) cs (n + 1 - c.utf8Size) else none

/-- The characters after the first `n` bytes. -/
def dropBytes? : List Char → Nat → Option (List Char)
  | cs, 0 => some cs
  | [], _ + 1 => none
  | c :: cs, n + 1 =>
    if c.utf8Size ≤ n + 1 then dropBytes? cs (n + 1 - c.utf8Size) else none

/-- The characters of the first `n` bytes. -/
def takeBytes? (cs : List Char) (n : Nat) : Option (List Char) :=
  (splitBytes? [] cs n).map (·.1)

/-! ## Sources -/

/-- A source text, held as its characters. -/
structure Source where
  chars : List Char
deriving DecidableEq, Inhabited

namespace Source

/-- The source with the given text. -/
def ofString (s : String) : Source :=
  ⟨s.toList⟩

/-- The text of a source. -/
def text (src : Source) : String :=
  String.ofList src.chars

/-- The size of a source in bytes. -/
def size (src : Source) : Nat :=
  byteLength src.chars

/-- The characters between two byte offsets, if both lie in the text, in order, and between
    characters. -/
def chars? (src : Source) (start stop : Nat) : Option (List Char) :=
  if start ≤ stop then do
    let tail ← dropBytes? src.chars start
    takeBytes? tail (stop - start)
  else none

/-- The text between two byte offsets, if it can be cut out. -/
def slice? (src : Source) (start stop : Nat) : Option String :=
  (src.chars? start stop).map String.ofList

/-- The text between two byte offsets, empty where it cannot be cut out. -/
def slice (src : Source) (start stop : Nat) : String :=
  (src.slice? start stop).getD ""

/-- Line and column, both from zero, of the byte `left` bytes ahead, the column in bytes. -/
def positionFrom (line column : Nat) : List Char → Nat → Nat × Nat
  | _, 0 => (line, column)
  | [], _ + 1 => (line, column)
  | c :: cs, n + 1 =>
    if c = '\n' then positionFrom (line + 1) 0 cs (n + 1 - c.utf8Size)
    else positionFrom line (column + min c.utf8Size (n + 1)) cs (n + 1 - c.utf8Size)

/-- Line and column of a byte offset, both from zero, the column in bytes. -/
def position (src : Source) (offset : Nat) : Nat × Nat :=
  positionFrom 0 0 src.chars offset

end Source

end DefineFold
