/-
  DefineFold.Pass.Form

  Which nodes a form handles, and what the defines answer for them. The first form that
  handles a node decides it, also by leaving it alone.
-/

import DefineFold.Defines.Table
import DefineFold.Tree.Chain
import DefineFold.Tree.Written

namespace DefineFold

namespace Form

/-- The name of a form. -/
def name : Form → String
  | .memberChain => "member_chain"
  | .identifier => "identifier"
  | .typeofOperand => "typeof"

/-- Whether a node is a read of this form. A shorthand property reads the name that it
    spells. -/
def handles (f : Form) (s : Site) : Bool :=
  match f with
  | .memberChain =>
    (s.kind = .memberExpression || s.kind = .subscriptExpression) && !s.isWritten
  | .identifier =>
    (s.kind = .identifier && !s.isWritten) || s.kind = .shorthandPropertyIdentifier
  | .typeofOperand =>
    s.kind = .unaryExpression && s.tree.operatorKind? = some (.other "typeof")

end Form

/-- The name of the operand of a `typeof` expression: a bare name, or the segments of a static
    chain with dots between them. -/
def Tree.typeofName? (t : Tree) (src : Source) : Option String :=
  match t.child? .argument with
  | none => none
  | some operand =>
    match operand.kind with
    | .identifier => some (operand.text src)
    | .memberExpression => (operand.segments? src).map joinDots
    | .subscriptExpression => (operand.segments? src).map joinDots
    | _ => none

/-- What the defines answer for a node of a form. -/
def Form.answer? (f : Form) (table : Table) (src : Source) (t : Tree) : Option Replacement :=
  match f with
  | .memberChain =>
    (t.segments? src).bind fun segments => table.resolve? .memberChain (.memberChain segments)
  | .identifier => table.resolve? .identifier (.identifier (t.text src))
  | .typeofOperand => (t.typeofName? src).bind table.resolveTypeof?

/-- The first of the forms that handles a node. -/
def formOf? (forms : List Form) (s : Site) : Option Form :=
  forms.find? (·.handles s)

end DefineFold
