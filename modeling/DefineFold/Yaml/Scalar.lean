/-
  DefineFold.Yaml.Scalar

  The three ways to write a scalar: plain, in quotes, and as a block. Each reader gives the
  text that the scalar stands for and the position after it.
-/

import DefineFold.Text.Quoted
import DefineFold.Yaml.Cursor

namespace DefineFold

namespace Yaml

/-! ## Plain scalars -/

/-- One word of a plain scalar. In a flow collection the brackets and the comma end it, and a
    colon right before one of them is an error. The first argument bounds the steps. -/
def plainWord? (flow : Bool) : Nat → Cursor → List Char → Option (List Char × Cursor)
  | 0, c, done => some (done.reverse, c)
  | fuel + 1, c, done =>
    match c.rest with
    | [] => some (done.reverse, c)
    | d :: _ =>
      if isGap d then some (done.reverse, c)
      else if flow ∧ d = ':' ∧ (c.peekAt? 1).any (fun e => e == '?' || isFlowMark e) then none
      else if (d = ':' ∧ c.gapAt 1) ∨ (flow ∧ isFlowMark d) then some (done.reverse, c)
      else plainWord? flow fuel c.advance (d :: done)

/-- The words of a plain scalar with folded gaps between them. The text so far is in reverse;
    the last result tells whether a line break was read behind the scalar. -/
def plainWords? (flow : Bool) (indent : Int) :
    Nat → Cursor → List Char → Gap → Option (List Char × Cursor × Bool)
  | 0, c, done, gap => some (done.reverse, c, gap.broken)
  | fuel + 1, c, done, gap =>
    if c.atDocumentMark ∨ c.seesChar '#' then some (done.reverse, c, gap.broken)
    else
      match plainWord? flow (c.limit + 1) c [] with
      | none => none
      | some (word, c) =>
        let done := if word.isEmpty then done else word.reverse ++ (gap.text.reverse ++ done)
        let gap := if word.isEmpty then gap else .empty
        if c.sees isGap then
          match gap.read? indent (c.limit + 1) c with
          | none => none
          | some (gap, c) =>
            if flow = false ∧ (c.column : Int) < indent then some (done.reverse, c, gap.broken)
            else plainWords? flow indent fuel c done gap
        else some (done.reverse, c, gap.broken)

/-- A plain scalar. -/
def plain? (flow : Bool) (indent : Int) (c : Cursor) : Option (List Char × Cursor × Bool) :=
  plainWords? flow indent (c.limit + 1) c [] .empty

/-! ## Quoted scalars -/

/-- The number of hexadecimal digits that an escape takes. -/
def escapeWidth? : Char → Option Nat
  | 'x' => some 2
  | 'u' => some 4
  | 'U' => some 8
  | _ => none

/-- The character of an escape with a letter of its own. -/
def escapeChar? : Char → Option Char
  | '0' => some '\x00'
  | 'a' => some '\x07'
  | 'b' => some '\x08'
  | 't' => some '\t'
  | '\t' => some '\t'
  | 'n' => some '\n'
  | 'v' => some '\x0b'
  | 'f' => some '\x0c'
  | 'r' => some '\r'
  | 'e' => some '\x1b'
  | ' ' => some ' '
  | '"' => some '"'
  | '/' => some '/'
  | '\\' => some '\\'
  | 'N' => some '\u0085'
  | '_' => some '\u00a0'
  | 'L' => some '\u2028'
  | 'P' => some '\u2029'
  | _ => none

/-- The character of an escape after its backslash, and the position after it. -/
def escaped? (c : Cursor) : Option (Char × Cursor) := do
  let letter ← c.peek?
  match escapeWidth? letter with
  | none =>
    let d ← escapeChar? letter
    some (d, c.advance)
  | some width =>
    let digits := (c.rest.drop 1).take width
    if digits.length < width then none
    else
      let code ← digits? 16 digits
      let d ← charOfCode? code
      some (d, c.advanceBy (width + 1))

/-- One word of a quoted scalar, up to white space or the closing quote, with the gap that an
    escaped line break opens. The first argument bounds the steps. -/
def quotedWord? (quote : Char) : Nat → Cursor → List Char → Option (List Char × Cursor × Gap)
  | 0, c, done => some (done.reverse, c, .empty)
  | fuel + 1, c, done =>
    match c.rest with
    | [] => some (done.reverse, c, .empty)
    | d :: more =>
      if isGap d then some (done.reverse, c, .empty)
      else if quote = '\'' ∧ d = '\'' ∧ more.head? = some '\'' then
        quotedWord? quote fuel (c.advanceBy 2) ('\'' :: done)
      else if d = quote then some (done.reverse, c, .empty)
      else if quote = '"' ∧ d = '\\' then
        if more.head?.any isBreak then
          some (done.reverse, c.advance.readBreak.2, .escapedBreak)
        else
          match escaped? c.advance with
          | none => none
          | some (e, c) => quotedWord? quote fuel c (e :: done)
      else quotedWord? quote fuel c.advance (d :: done)

/-- The words of a quoted scalar up to its closing quote. The text so far is in reverse. -/
def quotedWords? (quote : Char) : Nat → Cursor → List Char → Option (List Char × Cursor)
  | 0, _, _ => none
  | fuel + 1, c, done =>
    if c.atDocumentMark ∨ c.atEnd then none
    else
      match quotedWord? quote (c.limit + 1) c [] with
      | none => none
      | some (word, c, gap) =>
        let done := word.reverse ++ done
        if gap.broken = false ∧ c.seesChar quote then some (done.reverse, c.advance)
        else
          match gap.read? (-1) (c.limit + 1) c with
          | none => none
          | some (gap, c) => quotedWords? quote fuel c (gap.text.reverse ++ done)

/-- A scalar in quotes. -/
def quoted? (quote : Char) (c : Cursor) : Option (List Char × Cursor) :=
  quotedWords? quote (c.limit + 1) c.advance []

/-! ## Block scalars -/

/-- What is done with the line breaks at the end of a block. -/
inductive Chomping where
  | strip
  | clip
  | keep
deriving DecidableEq, Repr, Inhabited

/-- The chomping that a sign asks for. -/
def chomping? : Char → Option Chomping
  | '+' => some .keep
  | '-' => some .strip
  | _ => none

/-- An indentation from one to nine; a zero is an error. -/
def indentation? (c : Cursor) : Option (Option Nat × Cursor) :=
  match c.peek? with
  | some d =>
    if d = '0' then none
    else if isDigit d then some (some (d.toNat - 48), c.advance)
    else some (none, c)
  | none => some (none, c)

/-- The chomping and the indentation that the header of a block asks for, in either order. -/
def blockHeader? (c : Cursor) : Option (Chomping × Option Nat × Cursor) :=
  match c.peek?.bind chomping? with
  | some chomping => (indentation? c.advance).map fun (n, c) => (chomping, n, c)
  | none => do
    let (n, c) ← indentation? c
    match n, c.peek?.bind chomping? with
    | some n, some chomping => some (chomping, some n, c.advance)
    | n, _ => some (.clip, n, c)

/-- Empty lines before a line of a block, those read so far in reverse, with the greatest
    column reached. A zero indentation is one still to be found. Tabs in an indentation are an
    error. -/
def blockBreaks? (indent : Nat) :
    Nat → Cursor → List Char → Nat → Option (List Char × Cursor × Nat)
  | 0, c, breaks, deepest => some (breaks.reverse, c, deepest)
  | fuel + 1, c, breaks, deepest =>
    let spaces := (c.rest.takeWhile (· == ' ')).length
    let c := c.advanceBy (if indent = 0 then spaces else min spaces (indent - c.column))
    let deepest := max deepest c.column
    if (indent = 0 ∨ c.column < indent) ∧ c.seesChar '\t' then none
    else if c.sees isBreak then
      let (line, c) := c.readBreak
      blockBreaks? indent fuel c (line ++ breaks) deepest
    else some (breaks.reverse, c, deepest)

/-- The lines of a block. `leading` is the break before the next line, `trailing` the empty
    lines after that break, and `blank` whether the line before began with a blank. -/
def blockLines? (literal : Bool) (indent : Nat) :
    Nat → Cursor → List Char → List Char → List Char → Bool →
      Option (List Char × List Char × List Char × Cursor)
  | 0, c, done, leading, trailing, _ => some (done, leading, trailing, c)
  | fuel + 1, c, done, leading, trailing, blank =>
    if c.column = indent ∧ c.atEnd = false then
      let startsBlank := c.sees isBlank
      let folded := literal = false ∧ leading = ['\n'] ∧ blank = false ∧ startsBlank = false
      let joint := if folded then (if trailing.isEmpty then [' '] else []) else leading
      let (line, c) := c.takeWhile fun d => !isBreak d
      let done := line.reverse ++ (trailing.reverse ++ (joint.reverse ++ done))
      let (leading, c) := c.readBreak
      match blockBreaks? indent (c.limit + 1) c [] 0 with
      | none => none
      | some (trailing, c, _) => blockLines? literal indent fuel c done leading trailing startsBlank
    else some (done, leading, trailing, c)

/-- A block scalar after its mark, inside a block with the given indentation. -/
def block? (literal : Bool) (parentIndent : Int) (c : Cursor) : Option (List Char × Cursor) := do
  let (chomping, asked, c) ← blockHeader? c
  let c := c.skipWhile isBlank
  let c := if c.seesChar '#' then c.skipWhile fun d => !isBreak d else c
  if c.atEnd = false ∧ c.sees isBreak = false then none
  else
    let c := if c.atEnd then c else c.readBreak.2
    let fixed :=
      match asked with
      | some n => if 0 ≤ parentIndent then parentIndent.toNat + n else n
      | none => 0
    let (trailing, c, deepest) ← blockBreaks? fixed (c.limit + 1) c [] 0
    let indent := if fixed = 0 then max deepest (max (parentIndent + 1).toNat 1) else fixed
    let (done, leading, trailing, c) ←
      blockLines? literal indent (c.limit + 1) c [] [] trailing false
    let tail :=
      match chomping with
      | .strip => []
      | .clip => leading
      | .keep => leading ++ trailing
    some (done.reverse ++ tail, c)

end Yaml

end DefineFold
