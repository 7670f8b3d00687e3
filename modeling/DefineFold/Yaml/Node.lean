/-
  DefineFold.Yaml.Node

  The node that the tokens of a stream with one document spell. A stream without any content
  has none.
-/

import DefineFold.Yaml.Token

namespace DefineFold

namespace Yaml

/-- A node; anchors and aliases are labelled with `α`. -/
inductive Node (α : Type) where
  | alias (label : α)
  | scalar (anchor : Option α) (tag : Option Tag) (text : String) (isPlain : Bool)
  | sequence (anchor : Option α) (tag : Option Tag) (items : List (Node α))
  | mapping (anchor : Option α) (tag : Option Tag) (entries : List (Node α × Node α))
deriving Inhabited

/-- The node of nothing at all. -/
def Node.blank : Node String :=
  .scalar none none "" true

/-! ## Tags -/

/-- Handles of tags with what they stand for. -/
abbrev Handles := List (String × Tag)

/-- The handles that are known without directives. -/
def defaultHandles : Handles :=
  [("!", .mark), ("!!", .ofString coreStart)]

/-- The full text of a tag. -/
def fullTag? (handles : Handles) (handle : String) (suffix : Tag) : Option Tag :=
  if handle = "" then some suffix
  else (handles.find? fun h => h.1 == handle).map fun h => h.2.append suffix

/-- The anchor and the tag in front of a node, in either order. -/
structure Properties where
  anchor : Option String
  tag : Option Tag

/-- Reads the properties of a node. -/
def properties? (handles : Handles) : List Token → Option (Properties × List Token)
  | .anchor a :: .tag h s :: rest => (fullTag? handles h s).map fun t => (⟨some a, some t⟩, rest)
  | .tag h s :: .anchor a :: rest => (fullTag? handles h s).map fun t => (⟨some a, some t⟩, rest)
  | .anchor a :: rest => some (⟨some a, none⟩, rest)
  | .tag h s :: rest => (fullTag? handles h s).map fun t => (⟨none, some t⟩, rest)
  | rest => some (⟨none, none⟩, rest)

/-! ## Nodes -/

/-- Whether the next token is one of the given ones. -/
def nextIn (tokens : List Token) (set : List Token) : Bool :=
  tokens.head?.any set.contains

/-- The next token must be the given one; the rest behind it. -/
def expect? (t : Token) : List Token → Option (List Token)
  | u :: rest => if u = t then some rest else none
  | [] => none

mutual

/-- A node. In a flow collection no block may begin, and where `bare` holds a sequence may
    stand without an indentation of its own. The first argument bounds the steps. -/
def node? (handles : Handles) : Nat → Bool → Bool → List Token → Option (Node String × List Token)
  | 0, _, _, _ => none
  | _ + 1, _, _, .alias name :: rest => some (.alias name, rest)
  | fuel + 1, block, bare, tokens =>
    match properties? handles tokens with
    | none => none
    | some (p, tokens) =>
      match tokens with
      | .blockEntry :: _ =>
        if bare then bareItems? handles fuel p [] tokens
        else if p.anchor.isSome ∨ p.tag.isSome then some (.scalar p.anchor p.tag "" true, tokens)
        else none
      | .scalar text isPlain :: rest => some (.scalar p.anchor p.tag text isPlain, rest)
      | .flowSequenceStart :: rest => flowItems? handles fuel p [] rest
      | .flowMappingStart :: rest => flowEntries? handles fuel p [] rest
      | .blockSequenceStart :: rest =>
        if block then blockItems? handles fuel p [] rest
        else if p.anchor.isSome ∨ p.tag.isSome then some (.scalar p.anchor p.tag "" true, tokens)
        else none
      | .blockMappingStart :: rest =>
        if block then blockEntries? handles fuel p [] rest
        else if p.anchor.isSome ∨ p.tag.isSome then some (.scalar p.anchor p.tag "" true, tokens)
        else none
      | _ =>
        if p.anchor.isSome ∨ p.tag.isSome then some (.scalar p.anchor p.tag "" true, tokens)
        else none

/-- A node, or nothing at all where one of the given tokens comes next. -/
def nodeUnless? (handles : Handles) :
    Nat → Bool → Bool → List Token → List Token → Option (Node String × List Token)
  | 0, _, _, _, _ => none
  | fuel + 1, block, bare, stops, tokens =>
    if nextIn tokens stops then some (.blank, tokens) else node? handles fuel block bare tokens

/-- The items of a block sequence up to its end. -/
def blockItems? (handles : Handles) :
    Nat → Properties → List (Node String) → List Token → Option (Node String × List Token)
  | 0, _, _, _ => none
  | fuel + 1, p, done, tokens =>
    match tokens with
    | .blockEntry :: rest =>
      match nodeUnless? handles fuel true false [.blockEntry, .blockEnd] rest with
      | some (n, rest) => blockItems? handles fuel p (n :: done) rest
      | none => none
    | .blockEnd :: rest => some (.sequence p.anchor p.tag done.reverse, rest)
    | _ => none

/-- The items of a sequence without an indentation of its own. -/
def bareItems? (handles : Handles) :
    Nat → Properties → List (Node String) → List Token → Option (Node String × List Token)
  | 0, _, _, _ => none
  | fuel + 1, p, done, tokens =>
    match tokens with
    | .blockEntry :: rest =>
      match nodeUnless? handles fuel true false [.blockEntry, .key, .value, .blockEnd] rest with
      | some (n, rest) => bareItems? handles fuel p (n :: done) rest
      | none => none
    | _ => some (.sequence p.anchor p.tag done.reverse, tokens)

/-- The entries of a block mapping up to its end. -/
def blockEntries? (handles : Handles) :
    Nat → Properties → List (Node String × Node String) → List Token →
      Option (Node String × List Token)
  | 0, _, _, _ => none
  | fuel + 1, p, done, tokens =>
    match tokens with
    | .key :: rest =>
      match nodeUnless? handles fuel true true [.key, .value, .blockEnd] rest with
      | none => none
      | some (k, .value :: rest) =>
        match nodeUnless? handles fuel true true [.key, .value, .blockEnd] rest with
        | some (v, rest) => blockEntries? handles fuel p ((k, v) :: done) rest
        | none => none
      | some (k, rest) => blockEntries? handles fuel p ((k, .blank) :: done) rest
    | .blockEnd :: rest => some (.mapping p.anchor p.tag done.reverse, rest)
    | _ => none

/-- The items of a flow sequence up to its end. -/
def flowItems? (handles : Handles) :
    Nat → Properties → List (Node String) → List Token → Option (Node String × List Token)
  | 0, _, _, _ => none
  | fuel + 1, p, done, tokens =>
    match tokens with
    | .flowSequenceEnd :: rest => some (.sequence p.anchor p.tag done.reverse, rest)
    | _ =>
      match if done.isEmpty then some tokens else expect? .flowEntry tokens with
      | none => none
      | some (.flowSequenceEnd :: rest) => some (.sequence p.anchor p.tag done.reverse, rest)
      | some (.key :: rest) =>
        match flowPair? handles fuel rest with
        | some (n, rest) => flowItems? handles fuel p (n :: done) rest
        | none => none
      | some rest =>
        match node? handles fuel false false rest with
        | some (n, rest) => flowItems? handles fuel p (n :: done) rest
        | none => none

/-- A pair in a flow sequence, which is a mapping of one entry. Where the key is nothing at all
    the token that tells so is passed over. -/
def flowPair? (handles : Handles) : Nat → List Token → Option (Node String × List Token)
  | 0, _ => none
  | fuel + 1, tokens =>
    let key :=
      if nextIn tokens [.value, .flowEntry, .flowSequenceEnd] then some (.blank, tokens.tail)
      else node? handles fuel false false tokens
    match key with
    | none => none
    | some (k, .value :: rest) =>
      match nodeUnless? handles fuel false false [.flowEntry, .flowSequenceEnd] rest with
      | some (v, rest) => some (.mapping none none [(k, v)], rest)
      | none => none
    | some (k, rest) => some (.mapping none none [(k, .blank)], rest)

/-- The entries of a flow mapping up to its end. -/
def flowEntries? (handles : Handles) :
    Nat → Properties → List (Node String × Node String) → List Token →
      Option (Node String × List Token)
  | 0, _, _, _ => none
  | fuel + 1, p, done, tokens =>
    match tokens with
    | .flowMappingEnd :: rest => some (.mapping p.anchor p.tag done.reverse, rest)
    | _ =>
      match if done.isEmpty then some tokens else expect? .flowEntry tokens with
      | none => none
      | some (.flowMappingEnd :: rest) => some (.mapping p.anchor p.tag done.reverse, rest)
      | some (.key :: rest) =>
        match nodeUnless? handles fuel false false [.value, .flowEntry, .flowMappingEnd] rest with
        | none => none
        | some (k, .value :: rest) =>
          match nodeUnless? handles fuel false false [.flowEntry, .flowMappingEnd] rest with
          | some (v, rest) => flowEntries? handles fuel p ((k, v) :: done) rest
          | none => none
        | some (k, rest) => flowEntries? handles fuel p ((k, .blank) :: done) rest
      | some rest =>
        match node? handles fuel false false rest with
        | some (k, rest) => flowEntries? handles fuel p ((k, .blank) :: done) rest
        | none => none

end

/-! ## Documents -/

/-- The directives in front of a document. A version other than 1.1 and 1.2 is an error, and so
    is a second version or a handle given twice. -/
def directives? (seenVersion : Bool) (handles : Handles) :
    List Token → Option (Handles × List Token)
  | .version major minor :: rest =>
    if seenVersion ∨ major ≠ 1 ∨ (minor ≠ 1 ∧ minor ≠ 2) then none
    else directives? true handles rest
  | .tagDirective handle start :: rest =>
    if handles.any fun h => h.1 == handle then none
    else directives? seenVersion ((handle, start) :: handles) rest
  | rest => some (handles, rest)

/-- Whether the next token belongs to no content. -/
def endsContent : List Token → Bool
  | .version _ _ :: _ => true
  | .tagDirective _ _ :: _ => true
  | .documentStart :: _ => true
  | .documentEnd :: _ => true
  | .streamEnd :: _ => true
  | _ => false

/-- The first document of a stream that is not empty, and the rest. -/
def document? (tokens : List Token) : Option (Node String × List Token) := do
  let fuel := 4 * tokens.length + 4
  let marked := endsContent tokens ∧ tokens.head? ≠ some .documentEnd
  if marked then
    let (handles, rest) ← directives? false [] tokens
    let rest ← expect? .documentStart rest
    if endsContent rest then some (.blank, rest)
    else node? (handles ++ defaultHandles) fuel true false rest
  else node? defaultHandles fuel true false tokens

/-- The node of a stream with at most one document; an empty stream has none. -/
def stream? (tokens : List Token) : Option (Option (Node String)) :=
  if tokens = [.streamEnd] then some none
  else do
    let (n, rest) ← document? tokens
    if rest.dropWhile (· = .documentEnd) = [.streamEnd] then some (some n) else none

end Yaml

end DefineFold
