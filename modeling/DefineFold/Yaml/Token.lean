/-
  DefineFold.Yaml.Token

  The tokens of a YAML stream. Indentation becomes tokens of its own, and a key that is told
  only by the colon behind it gets its mark put in where it began: on one line, within 1024
  bytes.
-/

import DefineFold.Yaml.Scalar
import DefineFold.Yaml.Tag

namespace DefineFold

namespace Yaml

/-- A token of a YAML stream. -/
inductive Token where
  | streamEnd
  | version (major minor : Nat)
  | tagDirective (handle : String) (start : Tag)
  | documentStart
  | documentEnd
  | blockSequenceStart
  | blockMappingStart
  | blockEnd
  | flowSequenceStart
  | flowSequenceEnd
  | flowMappingStart
  | flowMappingEnd
  | blockEntry
  | flowEntry
  | key
  | value
  | alias (name : String)
  | anchor (name : String)
  | tag (handle : String) (suffix : Tag)
  | scalar (text : String) (isPlain : Bool)
deriving DecidableEq, Repr, Inhabited

/-- A place where a key may have begun. -/
structure KeyMark where
  possible : Bool
  /-- Whether the place is one where only a key may stand. -/
  required : Bool
  /-- The number of tokens before it. -/
  number : Nat
  index : Nat
  line : Nat
  column : Nat
deriving DecidableEq, Repr, Inhabited

/-- No key. -/
def KeyMark.none : KeyMark :=
  ⟨false, false, 0, 0, 0, 0⟩

/-- The state of reading tokens. -/
structure Scanner where
  cursor : Cursor
  /-- The tokens so far, the last one first. -/
  tokens : List Token
  count : Nat
  /-- How many flow collections are open. -/
  flow : Nat
  indent : Int
  /-- The indentations around the present one. -/
  outer : List Int
  keyAllowed : Bool
  /-- The present place for a key, then those of the flow collections around. -/
  keys : List KeyMark

namespace Scanner

/-- The state at the beginning of a text. -/
def start (cs : List Char) : Scanner :=
  ⟨.start cs, [], 0, 0, -1, [], true, [.none]⟩

/-- Adds a token. -/
def emit (s : Scanner) (t : Token) : Scanner :=
  { s with tokens := t :: s.tokens, count := s.count + 1 }

/-- Puts a token in behind the first `number` tokens. -/
def emitAt (s : Scanner) (number : Nat) (t : Token) : Scanner :=
  let later := s.count - number
  { s with tokens := s.tokens.take later ++ t :: s.tokens.drop later, count := s.count + 1 }

/-- Moves to another position. -/
def goto (s : Scanner) (c : Cursor) : Scanner :=
  { s with cursor := c }

/-- Sets whether a key may begin next. -/
def allowKey (s : Scanner) (allowed : Bool) : Scanner :=
  { s with keyAllowed := allowed }

/-- Whether a flow collection is open. -/
def inFlow (s : Scanner) : Bool :=
  0 < s.flow

/-! ## Keys and indentation -/

/-- Gives a place for a key up; that is an error where only a key may stand. -/
def dropMark? (k : KeyMark) : Option KeyMark :=
  if k.possible ∧ k.required then none else some { k with possible := false }

/-- Gives the present place for a key up. -/
def dropKey? (s : Scanner) : Option Scanner :=
  match s.keys with
  | [] => some s
  | k :: rest => (dropMark? k).map fun k => { s with keys := k :: rest }

/-- The longest key, in bytes. -/
def keyLimit : Nat :=
  1024

/-- Gives up the places for keys that lie on earlier lines or too far back. -/
def dropStale? (s : Scanner) : Option Scanner := do
  let keys ← s.keys.mapM fun k =>
    if k.possible ∧ (k.line < s.cursor.line ∨ k.index + keyLimit < s.cursor.index) then
      dropMark? k
    else some k
  some { s with keys := keys }

/-- Notes that a key may begin here. -/
def saveKey? (s : Scanner) : Option Scanner :=
  if s.keyAllowed then do
    let s ← s.dropKey?
    let required := s.inFlow = false ∧ s.indent = (s.cursor.column : Int)
    let mark : KeyMark :=
      ⟨true, required, s.count, s.cursor.index, s.cursor.line, s.cursor.column⟩
    some { s with keys := mark :: s.keys.tail }
  else some s

/-- Opens a block at a column if it lies deeper, its token put in at `number` or at the end. -/
def roll (s : Scanner) (column : Nat) (number : Option Nat) (t : Token) : Scanner :=
  if s.inFlow = false ∧ s.indent < (column : Int) then
    let s := { s with outer := s.indent :: s.outer, indent := (column : Int) }
    match number with
    | some n => s.emitAt n t
    | none => s.emit t
  else s

/-- Closes the given blocks as long as they lie deeper than a column. -/
def unrollFrom (column : Int) : List Int → Scanner → Scanner
  | [], s => s
  | outer :: rest, s =>
    if column < s.indent then
      unrollFrom column rest ({ s with indent := outer, outer := rest }.emit .blockEnd)
    else s

/-- Closes all blocks that lie deeper than a column. -/
def unroll (s : Scanner) (column : Int) : Scanner :=
  if s.inFlow then s else unrollFrom column s.outer s

/-! ## Tags and directives -/

/-- A tag. -/
def tag? (flow : Bool) (c : Cursor) : Option (Token × Cursor) := do
  let (handle, t, c) ← tagProperty? c
  if c.gapAt 0 ∨ (flow ∧ c.seesChar ',') then some (.tag handle t, c) else none

/-- Up to nine digits. -/
def versionNumber? (c : Cursor) : Option (Nat × Cursor) :=
  let (digits, c) := c.takeWhile isDigit
  if 9 < digits.length then none else (digits? 10 digits).map fun n => (n, c)

/-- The token of a directive after its name. -/
def directiveBody? (name : String) (c : Cursor) : Option (Token × Cursor) :=
  if name = "YAML" then do
    let (major, c) ← versionNumber? (c.skipWhile isBlank)
    if c.seesChar '.' then
      let (minor, c) ← versionNumber? c.advance
      some (.version major minor, c)
    else none
  else if name = "TAG" then do
    let (handle, c) ← tagHandle? (c.skipWhile isBlank)
    if (handle ≠ ['!'] ∧ (handle.length = 1 ∨ handle.getLast? ≠ some '!')) ∨ c.sees isBlank = false
    then none
    else
      let (t, c) ← tagText? true (c.skipWhile isBlank)
      if c.gapAt 0 then some (.tagDirective (String.ofList handle) t, c) else none
  else none

/-- A directive with the rest of its line. -/
def directive? (c : Cursor) : Option (Token × Cursor) := do
  let (name, c) := c.advance.takeWhile isWord
  if name.isEmpty ∨ c.gapAt 0 = false then none
  else
    let (token, c) ← directiveBody? (String.ofList name) c
    let c := c.skipWhile isBlank
    let c := if c.seesChar '#' then c.skipWhile fun d => !isBreak d else c
    if c.atEnd then some (token, c)
    else if c.sees isBreak then some (token, c.readBreak.2)
    else none

/-! ## Tokens -/

/-- Past white space, comments and line breaks. A byte order mark may begin a line, and a tab
    does not count as white space where a key may begin in a block. The first argument bounds
    the steps. -/
def skipGaps : Nat → Scanner → Scanner
  | 0, s => s
  | fuel + 1, s =>
    let tabs := s.inFlow || !s.keyAllowed
    let c := s.cursor
    let c := if c.column = 0 ∧ c.sees isByteOrderMark then c.advance else c
    let c := c.skipWhile fun d => d == ' ' || (tabs && d == '\t')
    let c := if c.seesChar '#' then c.skipWhile fun d => !isBreak d else c
    if c.sees isBreak then
      let s := s.goto c.readBreak.2
      skipGaps fuel (if s.inFlow then s else s.allowKey true)
    else s.goto c

/-- A token of one character after which a key may begin or not. -/
def mark (s : Scanner) (t : Token) (keyNext : Bool) : Scanner :=
  (s.goto s.cursor.advance).emit t |>.allowKey keyNext

/-- The beginning of a flow collection. -/
def openFlow? (s : Scanner) (t : Token) : Option Scanner := do
  let s ← s.saveKey?
  some { s.mark t true with flow := s.flow + 1, keys := .none :: s.keys }

/-- The end of a flow collection. -/
def closeFlow? (s : Scanner) (t : Token) : Option Scanner := do
  let s ← s.dropKey?
  let s := if s.inFlow then { s with flow := s.flow - 1, keys := s.keys.tail } else s
  some (s.mark t false)

/-- The mark of a document, of three characters. -/
def documentMark? (s : Scanner) (t : Token) : Option Scanner := do
  let s ← (s.unroll (-1)).dropKey?
  some (((s.allowKey false).goto (s.cursor.advanceBy 3)).emit t)

/-- The mark of an entry in a block sequence. -/
def entry? (s : Scanner) : Option Scanner := do
  let s ←
    if s.inFlow then some s
    else if s.keyAllowed then some (s.roll s.cursor.column none .blockSequenceStart)
    else none
  let s ← s.dropKey?
  some (s.mark .blockEntry true)

/-- The mark of a key. -/
def keyMark? (s : Scanner) : Option Scanner := do
  let s ←
    if s.inFlow then some s
    else if s.keyAllowed then some (s.roll s.cursor.column none .blockMappingStart)
    else none
  let s ← s.dropKey?
  some (s.mark .key !s.inFlow)

/-- The mark of a value. If a key may have begun before it, it has. -/
def valueMark? (s : Scanner) : Option Scanner :=
  match s.keys with
  | k :: rest =>
    if k.possible then
      let s := { s with keys := { k with possible := false } :: rest }
      let s := (s.emitAt k.number .key).roll k.column (some k.number) .blockMappingStart
      some (s.mark .value false)
    else if s.inFlow then some (s.mark .value false)
    else if s.keyAllowed then
      some ((s.roll s.cursor.column none .blockMappingStart).mark .value true)
    else none
  | [] => none

/-- An anchor or an alias. -/
def anchor? (s : Scanner) (make : String → Token) : Option Scanner := do
  let s ← s.saveKey?
  let (name, c) := s.cursor.advance.takeWhile isWord
  let ends := c.rest.head?.all fun d => isGap d || "?:,]\x7d%@\x60".toList.contains d
  if name.isEmpty ∨ ends = false then none
  else some (((s.allowKey false).goto c).emit (make (String.ofList name)))

/-- A scalar in quotes. -/
def quotedScalar? (s : Scanner) (quote : Char) : Option Scanner := do
  let s ← s.saveKey?
  let (text, c) ← quoted? quote s.cursor
  some (((s.allowKey false).goto c).emit (.scalar (String.ofList text) false))

/-- A block scalar. -/
def blockScalar? (s : Scanner) (literal : Bool) : Option Scanner := do
  let s ← s.dropKey?
  let (text, c) ← block? literal s.indent s.cursor.advance
  some (((s.allowKey true).goto c).emit (.scalar (String.ofList text) false))

/-- A plain scalar. -/
def plainScalar? (s : Scanner) : Option Scanner := do
  let s ← s.saveKey?
  let (text, c, broken) ← plain? s.inFlow (s.indent + 1) s.cursor
  some (((s.allowKey broken).goto c).emit (.scalar (String.ofList text) true))

/-- The token that begins with a given character. -/
def tokenAt? (s : Scanner) (d : Char) : Option Scanner :=
  let c := s.cursor
  if c.column = 0 ∧ d = '%' then do
    let s ← (s.unroll (-1)).dropKey?
    let (token, c) ← directive? s.cursor
    some (((s.allowKey false).goto c).emit token)
  else if c.atDocumentMark then
    s.documentMark? (if d = '-' then .documentStart else .documentEnd)
  else if d = '[' then s.openFlow? .flowSequenceStart
  else if d = '\x7b' then s.openFlow? .flowMappingStart
  else if d = ']' then s.closeFlow? .flowSequenceEnd
  else if d = '\x7d' then s.closeFlow? .flowMappingEnd
  else if d = ',' then s.dropKey?.map (·.mark .flowEntry true)
  else if d = '-' ∧ c.gapAt 1 then s.entry?
  else if d = '?' ∧ (s.inFlow ∨ c.gapAt 1) then s.keyMark?
  else if d = ':' ∧ (s.inFlow ∨ c.gapAt 1) then s.valueMark?
  else if d = '*' then s.anchor? .alias
  else if d = '&' then s.anchor? .anchor
  else if d = '!' then do
    let s ← s.saveKey?
    let (token, c) ← tag? s.inFlow s.cursor
    some (((s.allowKey false).goto c).emit token)
  else if d = '|' ∧ s.inFlow = false then s.blockScalar? true
  else if d = '>' ∧ s.inFlow = false then s.blockScalar? false
  else if d = '\'' ∨ d = '"' then s.quotedScalar? d
  else if (isGap d ∨ "-?:,[]\x7b\x7d#&*!|>'\"%@\x60".toList.contains d) = false
      ∨ (d = '-' ∧ (c.peekAt? 1).any isBlank = false)
      ∨ (s.inFlow = false ∧ (d = '?' ∨ d = ':') ∧ c.gapAt 1 = false) then s.plainScalar?
  else none

/-- The end of the stream. -/
def finish? (s : Scanner) : Option Scanner := do
  let s ← (s.unroll (-1)).dropKey?
  some (s.emit .streamEnd)

/-- Reads tokens up to the end of the stream. The first argument bounds their number. -/
def run? : Nat → Scanner → Option Scanner
  | 0, _ => none
  | fuel + 1, s => do
    let s := skipGaps (s.cursor.limit + 1) s
    let s ← s.dropStale?
    let s := s.unroll s.cursor.column
    match s.cursor.rest with
    | [] => s.finish?
    | d :: _ =>
      match s.tokenAt? d with
      | some s => run? fuel s
      | none => none

end Scanner

/-- The tokens of a text. -/
def tokens? (text : String) : Option (List Token) :=
  let cs := text.toList
  if cs.all isAllowed then
    (Scanner.run? (cs.length + 2) (.start cs)).map fun s => s.tokens.reverse
  else none

end Yaml

end DefineFold
