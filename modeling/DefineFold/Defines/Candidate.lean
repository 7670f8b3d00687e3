/-
  DefineFold.Defines.Candidate

  Candidates: what a node offers for comparison with the paths of the configuration. There
  are three forms of them, and a candidate is compared by the rule of its own form.
-/

import DefineFold.Value.Path

namespace DefineFold

/-- The three forms of expressions that defines can answer. -/
inductive Form where
  /-- A static member chain. -/
  | memberChain
  /-- A bare name. -/
  | identifier
  /-- The operand of `typeof`. -/
  | typeofOperand
deriving DecidableEq, Repr, Inhabited

/-- The forms in the order in which they are tried. -/
def Form.all : List Form :=
  [.memberChain, .identifier, .typeofOperand]

/-- What a node offers for comparison. -/
inductive Candidate where
  | memberChain (segments : List String)
  | identifier (name : String)
  | typeofOperand (name : String)
deriving DecidableEq, Repr, Inhabited

namespace Candidate

/-- The form of a candidate. -/
def form : Candidate → Form
  | .memberChain _ => .memberChain
  | .identifier _ => .identifier
  | .typeofOperand _ => .typeofOperand

/-- The candidate as it would be written in a source. -/
def describe : Candidate → String
  | .memberChain segments => joinDots segments
  | .identifier name => name
  | .typeofOperand name => "typeof " ++ name

end Candidate

/-- The name of the comparison that belongs to a form. -/
def Form.comparisonName : Form → String
  | .memberChain => "member_chain"
  | .identifier => "identifier"
  | .typeofOperand => "typeof_argument"

/-- Whether segments are the parts of a path: each segment is compared with the next part, and
    none may be left over. -/
def takesParts : List String → List (List Char) → Bool
  | [], parts => parts.isEmpty
  | _ :: _, [] => false
  | segment :: segments, part :: parts => part == segment.toList && takesParts segments parts

/-- Whether a candidate is what a dotted path addresses. The segments of a chain are compared
    with the parts of the path one by one, so a segment with a dot in it never matches; names
    are compared as a whole. A candidate of another form never matches. -/
def Form.accepts : Form → Candidate → String → Bool
  | .memberChain, .memberChain segments, dotted =>
    takesParts segments (splitDots dotted.toList)
  | .identifier, .identifier name, dotted => name == dotted
  | .typeofOperand, .typeofOperand name, dotted => name == dotted
  | _, _, _ => false

end DefineFold
