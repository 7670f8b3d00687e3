/-
  DefineFold.Tree.Written

  Positions in which a node is bound or assigned, or is a mere name, so that no literal may
  stand there. A position is judged by the nearest node around alone; whether a name is
  shadowed plays no part.
-/

import DefineFold.Tree.Basic

namespace DefineFold

/-- The kinds whose direct children are all names or binding patterns. -/
def Kind.bindsChildren : Kind → Bool
  | .formalParameters => true
  | .arrayPattern => true
  | .objectPattern => true
  | .restPattern => true
  | .importClause => true
  | .importSpecifier => true
  | .exportSpecifier => true
  | .namespaceImport => true
  | .namespaceExport => true
  | .typeQuery => true
  | .jsxOpeningElement => true
  | .jsxClosingElement => true
  | .jsxSelfClosingElement => true
  | .jsxAttribute => true
  | .nestedIdentifier => true
  | _ => false

/-- The field in which a node of this kind holds what it binds or assigns. Declarations of
    every sort hold it as their name. -/
def Kind.writtenField : Kind → Field
  | .assignmentExpression => .left
  | .augmentedAssignmentExpression => .left
  | .forInStatement => .left
  | .assignmentPattern => .left
  | .objectAssignmentPattern => .left
  | .updateExpression => .argument
  | .arrowFunction => .parameter
  | .catchClause => .parameter
  | .requiredParameter => .pattern
  | .optionalParameter => .pattern
  | .pairPattern => .value
  | _ => .name

/-- The operator token of an expression. -/
def Tree.operatorKind? (t : Tree) : Option Kind :=
  (t.child? .operator).map Tree.kind

/-- Whether the node stands where no literal may stand. -/
def Site.isWritten (s : Site) : Bool :=
  match s.above.head? with
  | none => false
  | some parent =>
    if parent.kind = .unaryExpression then parent.operatorKind? = some (.other "delete")
    else if parent.kind.bindsChildren then true
    else s.fills parent.kind.writtenField

end DefineFold
