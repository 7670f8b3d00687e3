/-
  DefineFold.Tree.Chain

  Static member chains such as `a.b["c"]`: a name or `this`, then links that are written as
  properties or as quoted subscripts. An optional link, a private one or a computed
  subscript makes a chain dynamic.
-/

import DefineFold.Text.Quoted
import DefineFold.Tree.Basic

namespace DefineFold

namespace Tree

/-- Whether one of the trees is the mark of an optional link. -/
def hasOptionalLink (children : List Tree) : Bool :=
  children.any fun t => t.kind = .optionalChain

/-- The name of the link that an access adds to its object: the property or the decoded
    subscript. -/
def link? (src : Source) (kind : Kind) (children : List Tree) : Option String :=
  if hasOptionalLink children then none
  else if kind = .memberExpression then
    match children.find? (·.fills .property) with
    | some p => if p.kind = .propertyIdentifier then some (p.text src) else none
    | none => none
  else
    match children.find? (·.fills .index) with
    | some i => if i.kind = .stringLiteral then decodeQuoted? (i.text src) else none
    | none => none

mutual

/-- The segments of a chain, the root first, with `later` behind them. -/
def segmentsOnto? (src : Source) (later : List String) : Tree → Option (List String)
  | .node head children =>
    match head.kind with
    | .identifier => some (src.slice head.start head.stop :: later)
    | .thisWord => some ("this" :: later)
    | .memberExpression =>
      match link? src .memberExpression children with
      | some link => segmentsOfObject? src (link :: later) children
      | none => none
    | .subscriptExpression =>
      match link? src .subscriptExpression children with
      | some link => segmentsOfObject? src (link :: later) children
      | none => none
    | _ => none

/-- The segments of the child that fills the field of the object. -/
def segmentsOfObject? (src : Source) (later : List String) : List Tree → Option (List String)
  | [] => none
  | t :: ts =>
    if t.fills .object then segmentsOnto? src later t else segmentsOfObject? src later ts

end

/-- The segments of a static chain, the root first. -/
def segments? (t : Tree) (src : Source) : Option (List String) :=
  t.segmentsOnto? src []

end Tree

end DefineFold
