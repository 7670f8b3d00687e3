/-
  DefineFold.Tree.Record

  Trees as values. Sources are parsed elsewhere; a tree is handed over as the list of its
  nodes in pre-order, each of them the list of its parent's number (minus one for the root),
  kind, flags, first byte, the byte after the last one, and the fields that it fills. The
  flags are the sum of one for a named node, two for a missing one and four for a faulty one.
-/

import DefineFold.Tree.Basic
import DefineFold.Value.Basic

namespace DefineFold

/-- The field that a value names. -/
def Field.ofValue? : Value → Option Field
  | .string text => Field.ofText? text
  | _ => none

/-- Whether a flag is among a sum of flags. -/
def hasFlag (flags flag : Nat) : Bool :=
  flags / flag % 2 == 1

/-- A node with the number of its parent. -/
def Node.ofValue? : Value → Option (Option Nat × Node)
  | .array (.integer parent :: .string kind :: .integer flags :: .integer start ::
      .integer stop :: fields) => do
    let fields ← fields.mapM Field.ofValue?
    let node : Node :=
      { kind := Kind.ofText kind
        named := hasFlag flags.toNat 1
        missing := hasFlag flags.toNat 2
        faulty := hasFlag flags.toNat 4
        start := start.toNat
        stop := stop.toNat
        fields := fields }
    some (if parent < 0 then none else some parent.toNat, node)
  | _ => none

/-- The tree whose nodes are listed in a value. -/
def Tree.ofValue? : Value → Option Tree
  | .array nodes => (nodes.mapM Node.ofValue?).bind Tree.ofPreorder?
  | _ => none

end DefineFold
