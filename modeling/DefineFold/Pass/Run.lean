/-
  DefineFold.Pass.Run

  The substitution pass over one source. The tree is walked from the root; a read that the
  defines answer is replaced by the literal of its value and not entered any more. After each
  substitution the binary expression right around it, parentheses apart, is folded if its
  value is known by then.
-/

import DefineFold.Pass.Evaluate
import DefineFold.Pass.Form
import DefineFold.Tree.Fault

namespace DefineFold

/-! ## Literals in place of expressions -/

/-- Whether a literal needs parentheses to stand where a node stands. An opening brace could
    be taken for a block, a number before a dot for its decimal point, and a minus sign for an
    operator. -/
def Site.needsParens (s : Site) (literal : String) : Bool :=
  match literal.toList.head? with
  | none => false
  | some c =>
    let negative := c == '-'
    if c = '\x7b' then true
    else if negative || isDigit c then
      match s.parentKind? with
      | some .memberExpression => s.fills .object
      | some .subscriptExpression => s.fills .object
      | some .unaryExpression => negative
      | some .updateExpression => negative
      | some .binaryExpression => negative
      | some .callExpression => negative && s.fills .function
      | some .newExpression => negative && s.fills .constructor
      | _ => false
    else false

/-- A literal as it stands in place of a node. -/
def Site.fit (s : Site) (literal : String) : String :=
  if s.needsParens literal then "(" ++ literal ++ ")" else literal

/-- The edit that replaces a node. -/
def Tree.edit (t : Tree) (src : Source) (newText : String) (kind : EditKind)
    (value : Option Primitive) : Edit :=
  let (row, column) := src.position t.start
  { start := t.start
    stop := t.stop
    line := row + 1
    column := column + 1
    oldText := t.text src
    newText := newText
    kind := kind
    value := value }

/-- The text that replaces a read: the literal of its value, after the name and a colon for a
    shorthand property. -/
def Site.replacementText (s : Site) (src : Source) (value : Value) : String :=
  let literal := s.fit value.literal
  if s.kind = .shorthandPropertyIdentifier then s.tree.text src ++ ": " ++ literal else literal

/-- The edit that substitutes a read. -/
def Site.substitution (s : Site) (src : Source) (r : Replacement) : Edit :=
  s.tree.edit src (s.replacementText src r.value) (.substitution r.path.dotted)
    (Primitive.ofValue? r.value)

/-- The binary expression right around, parentheses apart, among the nodes around a node. -/
def enclosingBinary? : List Tree → Option Site
  | [] => none
  | p :: rest =>
    if p.kind = .parenthesizedExpression then enclosingBinary? rest
    else if p.kind = .binaryExpression then some ⟨p, rest⟩
    else none

/-- The edit that folds the binary expression around a node, if its value is known. -/
def Site.fold? (s : Site) (src : Source) (pending : EditSet) : Option Edit := do
  let around ← enclosingBinary? s.above
  let op ← around.tree.binaryOp?
  if op.isFoldable then
    let value ← evaluate? src pending around.tree
    some (around.tree.edit src (around.fit value.literal) .fold (some value))
  else none

/-! ## The walk -/

/-- What a pass goes by. -/
structure Pass where
  table : Table
  forms : List Form
  fold : Bool
  /-- The level below which no node is looked at, the root being on level zero. -/
  maxDepth : Nat

namespace Pass

/-- The level that is used if none is asked for. -/
def defaultDepth : Nat :=
  1000

/-- The forms that are tried: those asked for, or all of them if none is and all are wanted. -/
def chooseForms (asked : List Form) (allByDefault : Bool) : List Form :=
  if allByDefault && asked.isEmpty then Form.all else asked

/-- The pass with all forms and the usual depth. -/
def ofDefines (defines : Defines) (fold : Bool) (options : ResolveOptions) : Pass :=
  ⟨Table.build defines options, Form.all, fold, defaultDepth⟩

/-- What the defines answer for a node, by the first form that handles it. -/
def answer? (p : Pass) (src : Source) (s : Site) : Option Replacement :=
  (formOf? p.forms s).bind fun f => f.answer? p.table src s.tree

/-- Records the substitution of a read, and the fold of the expression around it. -/
def record (p : Pass) (src : Source) (s : Site) (r : Replacement) (edits : EditSet) : EditSet :=
  let edits := edits.insert (s.substitution src r)
  if p.fold then
    match s.fold? src edits with
    | some e => edits.insert e
    | none => edits
  else edits

mutual

/-- Walks a tree on the given level, with the nodes around it, and adds to the edits. -/
def visit (p : Pass) (src : Source) (depth : Nat) (above : List Tree) (edits : EditSet) :
    Tree → EditSet
  | .node head children =>
    if p.maxDepth < depth then edits
    else if edits.covers head.start head.stop then edits
    else
      match p.answer? src ⟨.node head children, above⟩ with
      | some r => p.record src ⟨.node head children, above⟩ r edits
      | none => visitAll p src (depth + 1) (.node head children :: above) edits children

/-- Walks trees one after the other. -/
def visitAll (p : Pass) (src : Source) (depth : Nat) (above : List Tree) (edits : EditSet) :
    List Tree → EditSet
  | [] => edits
  | t :: ts => visitAll p src depth above (visit p src depth above edits t) ts

end

/-- The edits that a pass makes to a source. -/
def edits (p : Pass) (src : Source) (t : Tree) : EditSet :=
  if p.table.defines.isEmpty then .empty else p.visit src 0 [] .empty t

end Pass

/-! ## Outcome -/

/-- What a pass makes of a source. -/
structure Outcome where
  code : String
  edits : List Edit
deriving Inhabited

namespace Outcome

/-- Whether anything was replaced. -/
def isChanged (o : Outcome) : Bool :=
  !o.edits.isEmpty

/-- The number of substitutions. -/
def substitutions (o : Outcome) : Nat :=
  (o.edits.filter fun e => !e.isFold).length

/-- The number of folds. -/
def folds (o : Outcome) : Nat :=
  (o.edits.filter Edit.isFold).length

end Outcome

/-- Runs a pass over a source with its tree, the path being used in messages alone. A source
    that does not parse is refused. Edits that could not be put in would leave the source as it
    is; the edits of a tree that fits its source always can. -/
def Pass.run (p : Pass) (src : Source) (t : Tree) (path : String) :
    Except SyntaxFault Outcome :=
  match t.fault? src path with
  | some fault => .error fault
  | none =>
    let edits := p.edits src t
    .ok ⟨(edits.splice? src).getD src.text, edits.toList⟩

end DefineFold
