/-
  DefineFold.Yaml.Tag

  The tags of nodes: how they are written, with octets behind percent signs, and what a tag says
  about the node behind it. The octets of a tag need not be UTF-8, and a zero among them ends
  the text of the tag.
-/

import DefineFold.Text.Quoted
import DefineFold.Yaml.Cursor

namespace DefineFold

namespace Yaml

/-! ## The text of a tag -/

/-- The text of a tag. Octets that make up no character stand as `none`. -/
structure Tag where
  chars : List (Option Char)
deriving DecidableEq, Repr, Inhabited

namespace Tag

/-- The tag with the given text. -/
def ofString (s : String) : Tag :=
  ⟨s.toList.map some⟩

/-- The tag that is written with the given characters: the text before the first zero. -/
def ofWritten (cs : List (Option Char)) : Tag :=
  ⟨cs.takeWhile (· ≠ some '\x00')⟩

/-- A tag without any text. -/
def isEmpty (t : Tag) : Bool :=
  t.chars.isEmpty

/-- One tag behind another. -/
def append (a b : Tag) : Tag :=
  ⟨a.chars ++ b.chars⟩

/-- The lone exclamation mark. -/
def mark : Tag :=
  ofString "!"

/-- Whether a tag begins with an exclamation mark. -/
def isMarked (t : Tag) : Bool :=
  t.chars.head? == some (some '!')

/-- Local tags begin with an exclamation mark and are made of characters throughout. -/
def isLocal (t : Tag) : Bool :=
  t.isMarked && t.chars.all Option.isSome

end Tag

/-! ## Types of scalars -/

/-- The types of scalars that a tag can ask for. -/
inductive ScalarType where
  | bool
  | integer
  | float
  | null
deriving DecidableEq, Repr

/-- What the tags of the format's own types begin with. -/
def coreStart : String :=
  "tag:yaml.org,2002:"

/-- The type that a tag asks for. -/
def Tag.scalarType? (t : Tag) : Option ScalarType :=
  if t = .ofString (coreStart ++ "bool") then some .bool
  else if t = .ofString (coreStart ++ "int") then some .integer
  else if t = .ofString (coreStart ++ "float") then some .float
  else if t = .ofString (coreStart ++ "null") then some .null
  else none

/-! ## Reading tags -/

/-- Characters of tags, besides the percent sign. -/
def isTagChar (verbatim : Bool) (c : Char) : Bool :=
  isWord c || ";/?:@&=+$.!~*'()".toList.contains c
    || (verbatim && (c == ',' || c == '[' || c == ']'))

/-- Two hexadecimal digits after a percent sign, and the rest. -/
def octet? : List Char → Option (Nat × List Char)
  | '%' :: a :: b :: rest => (digits? 16 [a, b]).map fun n => (n, rest)
  | _ => none

/-- How many octets follow a first one, and what it adds to the code. -/
def firstOctet? (o : Nat) : Option (Nat × Nat) :=
  if o < 128 then some (0, o)
  else if o / 32 = 6 then some (1, o % 32)
  else if o / 16 = 14 then some (2, o % 16)
  else if o / 8 = 30 then some (3, o % 8)
  else none

/-- The code after a number of further octets. -/
def moreOctets? : Nat → Nat → List Char → Option Nat
  | 0, code, _ => some code
  | n + 1, code, cs => do
    let (o, rest) ← octet? cs
    if o / 64 = 2 then moreOctets? n (code * 64 + o % 64) rest else none

/-- The character that octets make up, if it is one in its shortest form, and their number. -/
def octets? (cs : List Char) : Option (Option Char × Nat) := do
  let (o, rest) ← octet? cs
  let (more, first) ← firstOctet? o
  let code ← moreOctets? more first rest
  some ((charOfCode? code).filter (·.utf8Size == more + 1), more + 1)

/-- The characters of a tag, those read so far in reverse. The first argument bounds the
    steps. -/
def tagChars? (verbatim : Bool) :
    Nat → Cursor → List (Option Char) → Option (List (Option Char) × Cursor)
  | 0, c, done => some (done.reverse, c)
  | fuel + 1, c, done =>
    match c.rest with
    | d :: _ =>
      if d = '%' then
        match octets? c.rest with
        | some (e, count) => tagChars? verbatim fuel (c.advanceBy (3 * count)) (e :: done)
        | none => none
      else if isTagChar verbatim d then tagChars? verbatim fuel c.advance (some d :: done)
      else some (done.reverse, c)
    | [] => some (done.reverse, c)

/-- A tag that is not empty as it is written. -/
def tagText? (verbatim : Bool) (c : Cursor) : Option (Tag × Cursor) := do
  let (cs, c) ← tagChars? verbatim (c.limit + 1) c []
  if cs.isEmpty then none else some (.ofWritten cs, c)

/-- The handle of a tag: an exclamation mark, or a word between two of them. Without the second
    mark the word belongs to the tag itself. -/
def tagHandle? (c : Cursor) : Option (List Char × Cursor) :=
  if c.seesChar '!' then
    let (word, c) := c.advance.takeWhile isWord
    if c.seesChar '!' then some ('!' :: (word ++ ['!']), c.advance) else some ('!' :: word, c)
  else none

/-- The handle and the text of a tag. A tag between angle brackets has an empty handle, and so
    has the lone exclamation mark. -/
def tagProperty? (c : Cursor) : Option (String × Tag × Cursor) :=
  if c.peekAt? 1 = some '<' then do
    let (t, c) ← tagText? true (c.advanceBy 2)
    if c.seesChar '>' then some ("", t, c.advance) else none
  else do
    let (handle, c) ← tagHandle? c
    if 1 < handle.length ∧ handle.getLast? = some '!' then
      let (t, c) ← tagText? false c
      some (String.ofList handle, t, c)
    else
      let (cs, c) ← tagChars? false (c.limit + 1) c (handle.tail.reverse.map some)
      let t := Tag.ofWritten cs
      if t.isEmpty then some ("", .mark, c) else some ("!", t, c)

end Yaml

end DefineFold
