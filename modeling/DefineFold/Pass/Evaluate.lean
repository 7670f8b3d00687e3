/-
  DefineFold.Pass.Evaluate

  The value of an expression, where literals and the edits recorded so far determine it. An
  edit of exactly the range of an expression stands for it. Whatever depends on a running
  program has no value, and neither have numbers that are not finite.
-/

import DefineFold.Edit.Basic
import DefineFold.Primitive.Operator
import DefineFold.Tree.Written

namespace DefineFold

/-- How deep expressions are looked into. -/
def evaluationDepth : Nat :=
  64

/-- The value of a template literal without substitutions. -/
def templateValue? (src : Source) (t : Tree) : Option Primitive :=
  if t.children.any fun c => c.head.named && c.kind = .templateSubstitution then none
  else (decodeQuoted? (t.text src)).map .string

/-- The operator of a binary expression. -/
def Tree.binaryOp? (t : Tree) : Option BinaryOp :=
  t.operatorKind?.bind fun k => BinaryOp.ofToken? k.text

/-- The operator of a unary expression. -/
def Tree.unaryOp? (t : Tree) : Option UnaryOp :=
  t.operatorKind?.bind fun k => UnaryOp.ofToken? k.text

/-- The value of an expression by its kind, given the values of the expressions below it. -/
def valueByKind? (src : Source) (below : Tree → Option Primitive) (t : Tree) : Option Primitive :=
  match t.kind with
  | .numberLiteral => (numeral? (t.text src)).map .number
  | .stringLiteral => (decodeQuoted? (t.text src)).map .string
  | .templateString => templateValue? src t
  | .trueLiteral => some (.bool true)
  | .falseLiteral => some (.bool false)
  | .nullLiteral => some .null
  | .undefinedWord => some .undefined
  | .identifier => if t.text src = "undefined" then some .undefined else none
  | .parenthesizedExpression => t.firstNamed?.bind below
  | .unaryExpression => do
    let op ← t.unaryOp?
    let operand ← t.child? .argument
    let value ← below operand
    some (op.apply value)
  | .binaryExpression => do
    let op ← t.binaryOp?
    if op.isFoldable then
      let left ← t.child? .left
      let right ← t.child? .right
      let a ← below left
      let b ← below right
      op.result? a b
    else none
  | _ => none

/-- The value of an expression, looking at most the given number of levels deep. -/
def evaluateWithin? (src : Source) (pending : EditSet) : Nat → Tree → Option Primitive
  | 0, _ => none
  | depth + 1, t =>
    match pending.matching? t.start t.stop with
    | some e => e.value
    | none =>
      (valueByKind? src (evaluateWithin? src pending depth) t).filter fun v => !v.isNonFinite

/-- The value of an expression. -/
def evaluate? (src : Source) (pending : EditSet) (t : Tree) : Option Primitive :=
  evaluateWithin? src pending evaluationDepth t

end DefineFold
