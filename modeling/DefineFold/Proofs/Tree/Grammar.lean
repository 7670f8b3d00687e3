/-
  DefineFold.Proofs.Tree.Grammar

  What the grammars promise about operands. A tree that a grammar has made is more regular than
  its layout: the word `undefined` is no name, literals hold no reads, parenthesised, unary and
  binary expressions consist of their operands and of asides (punctuation, operators and
  comments), and no operand is a mere wrapper around a binary expression. An assignment or a tag
  has a sign of its own, so that it is longer than each of its parts. An operand of a minus sign
  begins with no expression that binds looser than the sign.
-/

import DefineFold.Proofs.Tree.Layout

namespace DefineFold

/-- The kinds of comments. -/
def Kind.isComment : Kind → Bool
  | .other text => text == "comment" || text == "html_comment"
  | _ => false

/-- The kinds of nodes in which names stand alone, and of those that assign. Each of them has a
    sign or a word of its own. -/
def Kind.isSigned : Kind → Bool
  | .typeQuery => true
  | .jsxOpeningElement => true
  | .jsxClosingElement => true
  | .jsxSelfClosingElement => true
  | .assignmentExpression => true
  | .augmentedAssignmentExpression => true
  | .forInStatement => true
  | .updateExpression => true
  | .unaryExpression => true
  | _ => false

/-- The kinds of expressions whose values are made of those of their operands. -/
def Kind.isComposite : Kind → Bool
  | .parenthesizedExpression => true
  | .unaryExpression => true
  | .binaryExpression => true
  | _ => false

namespace Site

/-- A literal whose value its own text tells; a template is one if nothing is substituted in
    it. -/
def isLiteral (s : Site) : Bool :=
  match s.kind with
  | .numberLiteral => true
  | .stringLiteral => true
  | .templateString =>
    !s.tree.children.any fun c => c.head.named && c.kind = .templateSubstitution
  | .trueLiteral => true
  | .falseLiteral => true
  | .nullLiteral => true
  | .undefinedWord => true
  | _ => false

/-- A token or a comment, with nothing in it and no read. -/
def isAside (s : Site) : Bool :=
  s.tree.children.isEmpty && (!s.tree.head.named || s.kind.isComment) && !s.isCandidate

/-- What a grammar promises about a node. -/
structure Regular (src : Source) (s : Site) : Prop where
  /-- The word `undefined` has a kind of its own. -/
  name : s.kind = .identifier → s.tree.text src ≠ "undefined"
  /-- Literals hold no reads. -/
  literal : s.isLiteral = true → ∀ q ∈ s.within, q.isCandidate = false
  /-- Operators are tokens that are not empty. -/
  operator : s.kind.isComposite = true → ∀ c ∈ s.below, c.fills .operator = true →
    c.isAside = true ∧ c.tree.start < c.tree.stop
  /-- The place of an operand has one holder. -/
  holder : s.kind.isComposite = true → ∀ f ∈ [Field.argument, Field.left, Field.right],
    (s.below.filter (·.fills f)).length ≤ 1
  /-- In parentheses stands one operand. -/
  inner : s.kind = .parenthesizedExpression → (s.below.filter (!·.isAside)).length ≤ 1
  /-- A unary expression has its operand as argument. -/
  argument : s.kind = .unaryExpression → ∀ c ∈ s.below, c.isAside = true ∨ c.fills .argument = true
  /-- A binary expression has its operands on its two sides. -/
  sides : s.kind = .binaryExpression → ∀ c ∈ s.below,
    c.isAside = true ∨ c.fills .left = true ∨ c.fills .right = true
  /-- No operand has the range of a binary expression below it. -/
  distinct : s.kind.isComposite = true → ∀ c ∈ s.below, ∀ d ∈ c.below, ∀ q ∈ d.within,
    q.kind = .binaryExpression → ¬(q.tree.start = c.tree.start ∧ q.tree.stop = c.tree.stop)

instance (src : Source) (s : Site) : Decidable (s.Regular src) :=
  decidable_of_iff
    ((s.kind = .identifier → s.tree.text src ≠ "undefined") ∧
      (s.isLiteral = true → ∀ q ∈ s.within, q.isCandidate = false) ∧
      (s.kind.isComposite = true → ∀ c ∈ s.below, c.fills .operator = true →
        c.isAside = true ∧ c.tree.start < c.tree.stop) ∧
      (s.kind.isComposite = true → ∀ f ∈ [Field.argument, Field.left, Field.right],
        (s.below.filter (·.fills f)).length ≤ 1) ∧
      (s.kind = .parenthesizedExpression → (s.below.filter (!·.isAside)).length ≤ 1) ∧
      (s.kind = .unaryExpression → ∀ c ∈ s.below, c.isAside = true ∨ c.fills .argument = true) ∧
      (s.kind = .binaryExpression → ∀ c ∈ s.below,
        c.isAside = true ∨ c.fills .left = true ∨ c.fills .right = true) ∧
      (s.kind.isComposite = true → ∀ c ∈ s.below, ∀ d ∈ c.below, ∀ q ∈ d.within,
        q.kind = .binaryExpression → ¬(q.tree.start = c.tree.start ∧ q.tree.stop = c.tree.stop)))
    ⟨fun ⟨name, literal, operator, holder, inner, argument, sides, distinct⟩ =>
        ⟨name, literal, operator, holder, inner, argument, sides, distinct⟩,
      fun h => ⟨h.name, h.literal, h.operator, h.holder, h.inner, h.argument, h.sides,
        h.distinct⟩⟩

/-- Nothing but itself lies in an aside. -/
theorem eq_of_mem_within_of_isAside {s q : Site} (h : s.isAside = true) (hq : q ∈ s.within) :
    q = s := by
  simp only [isAside, Bool.and_eq_true, List.isEmpty_iff] at h
  exact eq_of_mem_within_of_leaf h.1.1 hq

/-- No read lies in an aside. -/
theorem not_isCandidate_of_isAside {s q : Site} (h : s.isAside = true) (hq : q ∈ s.within) :
    q.isCandidate = false := by
  rw [eq_of_mem_within_of_isAside h hq]
  simp only [isAside, Bool.and_eq_true, Bool.not_eq_true'] at h
  exact h.2

end Site

/-- A tree as the grammars make them: every node of it is regular. -/
def Tree.Regular (t : Tree) (src : Source) : Prop :=
  ∀ s ∈ Site.list t, s.Regular src

instance (t : Tree) (src : Source) : Decidable (t.Regular src) :=
  inferInstanceAs (Decidable (∀ s ∈ Site.list t, s.Regular src))

/-- A tree in which no part of a node with a sign of its own has the whole range of that node. -/
def Tree.Signed (t : Tree) : Prop :=
  ∀ s ∈ Site.list t, s.kind.isSigned = true → ∀ c ∈ s.below,
    ¬(c.tree.start ≤ s.tree.start ∧ s.tree.stop ≤ c.tree.stop)

instance (t : Tree) : Decidable t.Signed :=
  inferInstanceAs (Decidable (∀ s ∈ Site.list t, s.kind.isSigned = true → ∀ c ∈ s.below,
    ¬(c.tree.start ≤ s.tree.start ∧ s.tree.stop ≤ c.tree.stop)))

/-! ## Operands of minus signs -/

/-- How an expression is put together with the expression that it begins with. -/
inductive Lead where
  /-- It binds tighter than a minus sign before it, and holds what it begins with in a field. -/
  | tight (f : Field)
  /-- It assigns or binds what it begins with, which it holds in a field. -/
  | target (f : Field)
  /-- It binds looser than a minus sign before it. -/
  | loose
deriving DecidableEq

/-- The expressions that begin with another expression. All others begin with a word, a sign or a
    bracket of their own. -/
def Kind.lead? : Kind → Option Lead
  | .memberExpression => some (.tight .object)
  | .subscriptExpression => some (.tight .object)
  | .callExpression => some (.tight .function)
  | .updateExpression => some (.tight .argument)
  | .binaryExpression => some (.tight .left)
  | .assignmentExpression => some (.target .left)
  | .augmentedAssignmentExpression => some (.target .left)
  | .arrowFunction => some (.target .parameter)
  | .other "ternary_expression" => some .loose
  | .other "sequence_expression" => some .loose
  | .other "as_expression" => some .loose
  | .other "satisfies_expression" => some .loose
  | .other "non_null_expression" => some .loose
  | .other "instantiation_expression" => some .loose
  | _ => none

/-- The kinds of names, of accesses, and of what is calculated. -/
def Kind.isTerm : Kind → Bool
  | .identifier => true
  | .memberExpression => true
  | .subscriptExpression => true
  | .unaryExpression => true
  | .binaryExpression => true
  | _ => false

namespace Site

/-- Whether the node is the operand of a minus sign. -/
def isNegated (s : Site) : Bool :=
  match s.above.head? with
  | none => false
  | some y =>
    y.children.any (fun c => c.fills .operator && c.kind = .other "-") &&
      ((y.kind = .unaryExpression && s.fills .argument) ||
        (y.kind = .binaryExpression && s.fills .right))

/-- The names, accesses and calculations below a node that it begins with. -/
def fronts (s : Site) : List Site :=
  s.below.flatMap fun c =>
    c.within.filter fun x => x.tree.start = s.tree.start && x.kind.isTerm

/-- How the node right around is put together with the expression that it begins with. -/
def parentLead? (s : Site) : Option Lead :=
  s.parentKind?.bind Kind.lead?

/-- Whether the node right around can begin with the node, as far as the two kinds go. What is
    calculated is no target. -/
def isLed (s : Site) : Bool :=
  match s.parentLead? with
  | some (.tight f) => s.fills f
  | some (.target f) => s.fills f && s.kind ≠ .unaryExpression && s.kind ≠ .binaryExpression
  | some .loose => true
  | none => false

end Site

/-- What the grammars promise about operands of minus signs, and what such an operand begins
    with. -/
structure Tree.SignsBind (t : Tree) : Prop where
  /-- It is in an expression that can begin with it. -/
  led : ∀ z ∈ Site.list t, z.isNegated = true → ∀ x ∈ z.fronts, x.isLed = true
  /-- The sign binds tighter than conditions, casts, assertions and type arguments: these are
      around the sign, and not in its operand. -/
  tight : ∀ z ∈ Site.list t, z.isNegated = true → ∀ x ∈ z.fronts, x.parentLead? ≠ some .loose

instance (t : Tree) : Decidable t.SignsBind :=
  decidable_of_iff
    ((∀ z ∈ Site.list t, z.isNegated = true → ∀ x ∈ z.fronts, x.isLed = true) ∧
      (∀ z ∈ Site.list t, z.isNegated = true → ∀ x ∈ z.fronts, x.parentLead? ≠ some .loose))
    ⟨fun ⟨led, tight⟩ => ⟨led, tight⟩, fun h => ⟨h.led, h.tight⟩⟩

/-- Of a list with at most one element that meets a condition, two such elements are one. -/
theorem eq_of_length_filter_le_one {α : Type} {f : α → Bool} {xs : List α} {a b : α}
    (h : (xs.filter f).length ≤ 1) (ha : a ∈ xs) (hb : b ∈ xs) (hfa : f a = true)
    (hfb : f b = true) : a = b := by
  have hma : a ∈ xs.filter f := List.mem_filter.mpr ⟨ha, hfa⟩
  have hmb : b ∈ xs.filter f := List.mem_filter.mpr ⟨hb, hfb⟩
  match hlist : xs.filter f, h with
  | [], _ =>
    rw [hlist] at hma
    exact absurd hma List.not_mem_nil
  | [x], _ =>
    rw [hlist] at hma hmb
    rw [List.mem_singleton.mp hma, List.mem_singleton.mp hmb]
  | x :: y :: rest, h => simp at h

end DefineFold
