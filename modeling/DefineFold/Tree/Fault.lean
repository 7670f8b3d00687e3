/-
  DefineFold.Tree.Fault

  Sources that do not parse. The node reported is found by going down from the root, at each
  node into the first part that has a bad node in it.
-/

import DefineFold.Text.Radix
import DefineFold.Tree.Basic

namespace DefineFold

namespace Tree

mutual

/-- Whether a bad node is anywhere in a tree. -/
def hasBad : Tree → Bool
  | .node head children => head.isBad || hasBadIn children

/-- Whether a bad node is anywhere in several trees. -/
def hasBadIn : List Tree → Bool
  | [] => false
  | t :: ts => hasBad t || hasBadIn ts

end

mutual

/-- The search for a bad node from the top of a tree. It goes on from a node to one of its parts
    and never comes back. -/
def seekBad? : Tree → Option Tree
  | .node head children =>
    if head.isBad then some (.node head children)
    else if hasBad (.node head children) then seekBadIn? children
    else none

/-- The search goes on in the first of several trees that has a bad node in it. -/
def seekBadIn? : List Tree → Option Tree
  | [] => none
  | t :: ts => if t.head.isBad || t.hasBad then seekBad? t else seekBadIn? ts

end

end Tree

/-- What is wrong with a source. -/
inductive FaultCause where
  /-- A token that should stand here. -/
  | missing (kind : Kind)
  /-- Source that should not stand here, its first characters. -/
  | unexpected (snippet : String)
deriving DecidableEq, Repr

/-- A source that does not parse, and where. Line and column count from one, the column in
    bytes. -/
structure SyntaxFault where
  path : String
  line : Nat
  column : Nat
  cause : FaultCause
deriving DecidableEq, Repr

/-- The wording of a cause. -/
def FaultCause.message : FaultCause → String
  | .missing kind => "missing \x60" ++ kind.text ++ "\x60"
  | .unexpected snippet => "unexpected \x60" ++ snippet ++ "\x60"

/-- The wording of a fault. -/
def SyntaxFault.message (f : SyntaxFault) : String :=
  "syntax error in " ++ f.path ++ " at line " ++ natText f.line ++ ", column "
    ++ natText f.column ++ ": " ++ f.cause.message

/-- How much of an unexpected source is quoted, in characters. -/
def snippetLength : Nat :=
  40

/-- The fault that a bad node stands for. -/
def Node.fault (n : Node) (src : Source) (path : String) : SyntaxFault :=
  let (row, column) := src.position n.start
  let cause :=
    if n.missing then .missing n.kind
    else .unexpected (String.ofList (((src.chars? n.start n.stop).getD []).take snippetLength))
  ⟨path, row + 1, column + 1, cause⟩

/-- The fault of a source, if its tree has one: that of the node which the search finds. A search
    that found nothing would leave the blame to the root. -/
def Tree.fault? (t : Tree) (src : Source) (path : String) : Option SyntaxFault :=
  if t.hasBad then some ((t.seekBad?.getD t).head.fault src path) else none

end DefineFold
