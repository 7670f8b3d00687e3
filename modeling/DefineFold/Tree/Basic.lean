/-
  DefineFold.Tree.Basic

  Syntax trees. A node has a kind, a range of bytes in the source, and the fields of its
  parent that it fills. A site is a node together with the nodes around it, the nearest
  first, which is what the position of an expression is judged by.
-/

import DefineFold.Text.Source
import DefineFold.Tree.Kind

namespace DefineFold

/-- The fields by which a node can hold one of its children. -/
inductive Field where
  | left
  | right
  | operator
  | argument
  | parameter
  | pattern
  | value
  | name
  | object
  | property
  | index
  | function
  | constructor
deriving DecidableEq, Repr, Inhabited

/-- The fields, each with its text. -/
def Field.named : List (String × Field) :=
  [("left", .left), ("right", .right), ("operator", .operator), ("argument", .argument),
   ("parameter", .parameter), ("pattern", .pattern), ("value", .value), ("name", .name),
   ("object", .object), ("property", .property), ("index", .index), ("function", .function),
   ("constructor", .constructor)]

/-- The field with the given text. -/
def Field.ofText? (text : String) : Option Field :=
  (Field.named.find? fun entry => entry.1 == text).map (·.2)

/-- What a tree says about one node, its children apart. -/
structure Node where
  kind : Kind
  /-- Named nodes are those of the grammar; the others are tokens. -/
  named : Bool
  /-- A token that the grammar asks for and the source has not. -/
  missing : Bool
  /-- Source that fits nowhere. -/
  faulty : Bool
  start : Nat
  stop : Nat
  /-- The fields of the parent that this node fills. -/
  fields : List Field
deriving DecidableEq, Repr, Inhabited

/-- A node of which the source is to blame. -/
def Node.isBad (n : Node) : Bool :=
  n.faulty || n.missing

/-- A syntax tree. -/
inductive Tree where
  | node (head : Node) (children : List Tree)
deriving Inhabited

namespace Tree

/-- The node at the top. -/
def head : Tree → Node
  | .node head _ => head

/-- The trees right below the top. -/
def children : Tree → List Tree
  | .node _ children => children

/-- The kind of the node at the top. -/
def kind (t : Tree) : Kind :=
  t.head.kind

/-- The first byte of the node at the top. -/
def start (t : Tree) : Nat :=
  t.head.start

/-- The byte after the node at the top. -/
def stop (t : Tree) : Nat :=
  t.head.stop

/-- Whether the node at the top fills a field of its parent. -/
def fills (t : Tree) (f : Field) : Bool :=
  t.head.fields.contains f

/-- The child that fills a field. -/
def child? (t : Tree) (f : Field) : Option Tree :=
  t.children.find? (·.fills f)

/-- The first child that is no mere token. -/
def firstNamed? (t : Tree) : Option Tree :=
  t.children.find? (·.head.named)

/-- The source of the node at the top. -/
def text (t : Tree) (src : Source) : String :=
  src.slice t.start t.stop

end Tree

/-! ## Trees from lists -/

/-- The state while a list of nodes is put together from its end: the trees already found
    for each parent, and the root. -/
structure Assembly where
  below : Array (List Tree)
  root : Option Tree

/-- Adds the node with the given number and parent, whose children have all been added. -/
def Assembly.add (a : Assembly) (number : Nat) (parent : Option Nat) (head : Node) : Assembly :=
  let tree := Tree.node head (a.below[number]?.getD [])
  match parent with
  | some p => { a with below := a.below.modify p (tree :: ·) }
  | none => { a with root := some tree }

/-- The tree of a list of nodes in pre-order, each with the number of its parent. -/
def Tree.ofPreorder? (nodes : List (Option Nat × Node)) : Option Tree :=
  (nodes.zipIdx.foldr (fun entry a => a.add entry.2 entry.1.1 entry.1.2)
    ⟨Array.replicate nodes.length [], none⟩ : Assembly).root

/-! ## Sites -/

/-- A node with the nodes around it, its parent first. -/
structure Site where
  tree : Tree
  above : List Tree
deriving Inhabited

namespace Site

/-- The root of a tree. -/
def root (t : Tree) : Site :=
  ⟨t, []⟩

/-- The kind of the node. -/
def kind (s : Site) : Kind :=
  s.tree.kind

/-- The node around. -/
def parent? (s : Site) : Option Site :=
  match s.above with
  | [] => none
  | p :: rest => some ⟨p, rest⟩

/-- The kind of the node around. -/
def parentKind? (s : Site) : Option Kind :=
  s.above.head?.map Tree.kind

/-- Whether the node fills a field of the node around. -/
def fills (s : Site) (f : Field) : Bool :=
  s.tree.fills f

mutual

/-- A tree and all trees in it as sites in pre-order, with `later` behind them. -/
def listOnto (above : List Tree) (later : List Site) : Tree → List Site
  | .node head children =>
    ⟨.node head children, above⟩ :: listAllOnto (.node head children :: above) later children

/-- Several trees and all trees in them as sites in pre-order, with `later` behind them. -/
def listAllOnto (above : List Tree) (later : List Site) : List Tree → List Site
  | [] => later
  | t :: ts => listOnto above (listAllOnto above later ts) t

end

/-- Every node of a tree in pre-order. -/
def list (t : Tree) : List Site :=
  listOnto [] [] t

end Site

end DefineFold
