/-
  DefineFold.Yaml.Document

  YAML documents as configuration values. Plain scalars are null, booleans or numbers where
  they are spelled like those of YAML 1.2, and texts otherwise; the keys of a mapping are the
  texts of their scalars. Aliases are expanded, within limits on depth and repetition.
-/

import DefineFold.Number.Decimal
import DefineFold.Value.Basic
import DefineFold.Yaml.Node

namespace DefineFold

namespace Yaml

/-! ## Scalars -/

/-- The spellings of null. -/
def isNull (s : String) : Bool :=
  ["null", "Null", "NULL", "~"].contains s

/-- The spellings of booleans. -/
def bool? (s : String) : Option Bool :=
  if ["true", "True", "TRUE"].contains s then some true
  else if ["false", "False", "FALSE"].contains s then some false
  else none

/-- Characters without a sign in front. -/
def unsigned : List Char → List Char
  | '-' :: cs => cs
  | '+' :: cs => cs
  | cs => cs

/-- Digits with a zero in front that is not alone, which are a text. -/
def isZeroPadded (cs : List Char) : Bool :=
  match unsigned cs with
  | '0' :: c :: rest => (c :: rest).all isDigit
  | _ => false

/-- Characters without one plus sign in front. -/
def withoutPlus : List Char → List Char
  | '+' :: cs => cs
  | cs => cs

/-- Whether a sign comes first. -/
def hasSign (cs : List Char) : Bool :=
  cs.head? == some '+' || cs.head? == some '-'

/-- The radix that a mark of two characters announces, and the digits. -/
def radix? : List Char → Option (Nat × List Char)
  | '0' :: 'x' :: rest => some (16, rest)
  | '0' :: 'o' :: rest => some (8, rest)
  | '0' :: 'b' :: rest => some (2, rest)
  | _ => none

/-- A number that is not negative, below `bound`. -/
def natural? (bound : Nat) (cs : List Char) : Option Nat :=
  let body := withoutPlus cs
  let marked :=
    match radix? body with
    | some (radix, digits) => (digits? radix digits).filter (· < bound)
    | none => none
  match marked with
  | some n => some n
  | none =>
    if hasSign body ∨ isZeroPadded cs then none else (digits? 10 body).filter (· < bound)

/-- A negative number, or one of any sign in decimal, in `-bound … bound - 1`. -/
def integer? (bound : Nat) (cs : List Char) : Option Int :=
  let marked :=
    match cs with
    | '-' :: rest =>
      match radix? rest with
      | some (radix, digits) =>
        ((digits? radix digits).filter (· ≤ bound)).map fun n => -(n : Int)
      | none => none
    | _ => none
  match marked with
  | some n => some n
  | none => if isZeroPadded cs then none else signed? 10 bound cs

/-- A number that is no integer. -/
def float? (cs : List Char) : Option Float :=
  let body := withoutPlus cs
  if cs.head? = some '+' ∧ hasSign body then none
  else if [".inf", ".Inf", ".INF"].contains (String.ofList body) then some Double.infinity
  else if ["-.inf", "-.Inf", "-.INF"].contains (String.ofList cs) then some Double.negInfinity
  else if [".nan", ".NaN", ".NAN"].contains (String.ofList cs) then some Double.nan
  else (decimal? body).filter Float.isFinite

/-- An integer as a value: exact within 64 bits, and an error within 128 bits. The outer layer
    tells whether the characters are an integer. -/
def integerValue? (cs : List Char) : Option (Option Value) :=
  match natural? (Nat.pow 2 64) cs with
  | some n => some (some (.integer n))
  | none =>
    match integer? (Nat.pow 2 63) cs with
    | some n => some (some (.integer n))
    | none =>
      if (natural? (Nat.pow 2 128) cs).isSome ∨ (integer? (Nat.pow 2 127) cs).isSome then some none
      else none

/-- A number as a value; one that is not finite becomes null. -/
def floatValue (x : Float) : Value :=
  if x.isFinite then .double x else .null

/-- The value of a plain scalar without a tag. -/
def plainValue? (s : String) : Option Value :=
  let cs := s.toList
  if s = "" ∨ isNull s then some .null
  else
    match bool? s with
    | some b => some (.bool b)
    | none =>
      match integerValue? cs with
      | some v => v
      | none =>
        if isZeroPadded cs then some (.string s)
        else
          match float? cs with
          | some x => some (floatValue x)
          | none => some (.string s)

/-- The value of a scalar that a tag gives a type. -/
def typedValue? (text : String) : ScalarType → Option Value
  | .bool => (bool? text).map .bool
  | .integer => (integerValue? text.toList).join
  | .float => (float? text.toList).map floatValue
  | .null => if isNull text then some .null else none

/-- The value of a scalar. Tags of the format's own types fix the type, and local tags are an
    error. A tag that only begins like a local one says nothing, and any other makes a text. -/
def scalarValue? (tag : Option Tag) (text : String) (isPlain : Bool) : Option Value :=
  let untagged := if isPlain then plainValue? text else some (.string text)
  match tag with
  | none => untagged
  | some t =>
    match t.scalarType? with
    | some type => typedValue? text type
    | none =>
      if t.isLocal then none else if t.isMarked then untagged else some (.string text)

/-- Whether a tag is local, which no collection may have. -/
def isLocal (tag : Option Tag) : Bool :=
  tag.any Tag.isLocal

/-! ## Aliases -/

/-- The numbers of the anchors met so far. -/
abbrev Labels := List (String × Nat)

/-- Notes an anchor. Its number is how many different ones were met before. -/
def Labels.note (labels : Labels) (name : String) : Labels × Nat :=
  let number := labels.length
  ((name, number) :: labels.filter (fun l => l.1 != name), number)

/-- Notes an anchor if there is one. -/
def Labels.noteOptional (labels : Labels) : Option String → Labels × Option Nat
  | none => (labels, none)
  | some name => ((labels.note name).1, some (labels.note name).2)

mutual

/-- Numbers the anchors of a node in their order, and the aliases after them. An alias of no
    anchor is an error. -/
def number? (labels : Labels) : Node String → Option (Node Nat × Labels)
  | .alias name => (labels.find? fun l => l.1 == name).map fun l => (.alias l.2, labels)
  | .scalar anchor tag text isPlain =>
    let (labels, a) := labels.noteOptional anchor
    some (.scalar a tag text isPlain, labels)
  | .sequence anchor tag items =>
    let noted := labels.noteOptional anchor
    match numberItems? noted.1 items with
    | some (items, labels) => some (.sequence noted.2 tag items, labels)
    | none => none
  | .mapping anchor tag entries =>
    let noted := labels.noteOptional anchor
    match numberEntries? noted.1 entries with
    | some (entries, labels) => some (.mapping noted.2 tag entries, labels)
    | none => none

/-- Numbers the items of a sequence. -/
def numberItems? (labels : Labels) : List (Node String) → Option (List (Node Nat) × Labels)
  | [] => some ([], labels)
  | n :: ns =>
    match number? labels n with
    | none => none
    | some (n, labels) =>
      match numberItems? labels ns with
      | some (ns, labels) => some (n :: ns, labels)
      | none => none

/-- Numbers the entries of a mapping. -/
def numberEntries? (labels : Labels) :
    List (Node String × Node String) → Option (List (Node Nat × Node Nat) × Labels)
  | [] => some ([], labels)
  | (k, v) :: rest =>
    match number? labels k with
    | none => none
    | some (k, labels) =>
      match number? labels v with
      | none => none
      | some (v, labels) =>
        match numberEntries? labels rest with
        | some (rest, labels) => some ((k, v) :: rest, labels)
        | none => none

end

/-- A node under the number of its anchor, if it has one. -/
def anchoredHere (anchor : Option Nat) (n : Node Nat) : List (Nat × Node Nat) :=
  (anchor.map fun a => (a, n)).toList

mutual

/-- The anchored nodes in their order. -/
def anchored : Node Nat → List (Nat × Node Nat)
  | .alias _ => []
  | .scalar a tag text isPlain => anchoredHere a (.scalar a tag text isPlain)
  | .sequence a tag items => anchoredHere a (.sequence a tag items) ++ anchoredItems items
  | .mapping a tag entries => anchoredHere a (.mapping a tag entries) ++ anchoredEntries entries

/-- The anchored nodes in the items of a sequence. -/
def anchoredItems : List (Node Nat) → List (Nat × Node Nat)
  | [] => []
  | n :: ns => anchored n ++ anchoredItems ns

/-- The anchored nodes in the entries of a mapping. -/
def anchoredEntries : List (Node Nat × Node Nat) → List (Nat × Node Nat)
  | [] => []
  | (k, v) :: rest => anchored k ++ anchored v ++ anchoredEntries rest

end

mutual

/-- The size of a node: one for a scalar or an alias, two for the ends of a collection. -/
def weight : Node Nat → Nat
  | .alias _ => 1
  | .scalar _ _ _ _ => 1
  | .sequence _ _ items => 2 + weightItems items
  | .mapping _ _ entries => 2 + weightEntries entries

/-- The size of the items of a sequence. -/
def weightItems : List (Node Nat) → Nat
  | [] => 0
  | n :: ns => weight n + weightItems ns

/-- The size of the entries of a mapping. -/
def weightEntries : List (Node Nat × Node Nat) → Nat
  | [] => 0
  | (k, v) :: rest => weight k + weight v + weightEntries rest

end

/-! ## Values -/

/-- What aliases can refer to, and how many of them may be followed. -/
structure Anchors where
  nodes : List (Nat × Node Nat)
  limit : Nat

/-- The node of an alias: of several under one number the last. -/
def Anchors.find? (anchors : Anchors) (number : Nat) : Option (Node Nat) :=
  (anchors.nodes.reverse.find? fun a => a.1 == number).map (·.2)

/-- The node of an alias, and the count of aliases followed. -/
def Anchors.jump? (anchors : Anchors) (jumps number : Nat) : Option (Node Nat × Nat) :=
  if jumps + 1 ≤ anchors.limit then (anchors.find? number).map fun n => (n, jumps + 1) else none

/-- The text of a key, and the count of aliases followed. Only scalars can be keys. -/
def keyText? (anchors : Anchors) (jumps : Nat) : Node Nat → Option (String × Nat)
  | .scalar _ _ text _ => some (text, jumps)
  | .alias number =>
    match anchors.jump? jumps number with
    | some (.scalar _ _ text _, jumps) => some (text, jumps)
    | _ => none
  | _ => none

/-- The value of a node whose collections nest at most `depth` deep, and the count of aliases
    followed. The first argument bounds the steps downwards, aliases included. -/
def value? (anchors : Anchors) : Nat → Nat → Nat → Node Nat → Option (Value × Nat)
  | 0, _, _, _ => none
  | _ + 1, _, jumps, .scalar _ tag text isPlain =>
    (scalarValue? tag text isPlain).map fun v => (v, jumps)
  | fuel + 1, depth, jumps, .alias number =>
    match anchors.jump? jumps number with
    | some (n, jumps) => value? anchors fuel depth jumps n
    | none => none
  | fuel + 1, depth, jumps, .sequence _ tag items =>
    if isLocal tag ∨ depth = 0 then none
    else do
      let (done, jumps) ← items.foldlM (fun (done, jumps) n => do
        let (v, jumps) ← value? anchors fuel (depth - 1) jumps n
        some (v :: done, jumps)) (([] : List Value), jumps)
      some (.array done.reverse, jumps)
  | fuel + 1, depth, jumps, .mapping _ tag entries =>
    if isLocal tag ∨ depth = 0 then none
    else do
      let (done, jumps) ← entries.foldlM (fun (done, jumps) e => do
        let (key, jumps) ← keyText? anchors jumps e.1
        let (v, jumps) ← value? anchors fuel (depth - 1) jumps e.2
        some (Entries.insert key v done, jumps)) (([] : Entries), jumps)
      some (.object done, jumps)

/-- How deep the collections of a document may nest. -/
def depthLimit : Nat :=
  128

/-- How many aliases may be followed for each unit of a document's size. -/
def jumpFactor : Nat :=
  100

/-- The value of a document. -/
def parse? (text : String) : Option Value := do
  let tokens ← tokens? text
  match ← stream? tokens with
  | none => some .null
  | some n =>
    let (n, _) ← number? [] n
    let anchors : Anchors := ⟨anchored n, jumpFactor * weight n⟩
    let (v, _) ← value? anchors (2 * depthLimit + 4) depthLimit 0 n
    some v

end Yaml

end DefineFold
