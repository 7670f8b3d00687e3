/-
  DefineFold.Proofs.Pass.Targets

  What becomes of a static chain that is assigned. The chain itself is never replaced, since no
  literal may stand in its place, and in a tree as the grammars make them nothing around it is
  replaced or folded either: the expression that assigns it is a wall (`Site.wall_of_isAssigned`).
  But the walk goes on into the chain, and its shorter beginnings are reads like any other. So an
  assigned chain comes out as it went in if, and only if, none of its shorter beginnings has an
  answer (`run_keeps_target_iff`).
-/

import DefineFold.Proofs.Pass.Kept

namespace DefineFold

/-- A static chain of a tree that is assigned. -/
structure Site.Target (src : Source) (t : Tree) (c : Site) : Prop where
  mem : c ∈ Site.list t
  assigned : c.isAssigned = true
  segments : (c.tree.segments? src).isSome = true

/-- An expression with `delete` has no value. -/
theorem valueByKind?_delete {src : Source} {f : Tree → Option Primitive} {s : Site}
    (hkind : s.kind = .unaryExpression)
    (hdelete : s.tree.operatorKind? = some (.other "delete")) :
    valueByKind? src f s.tree = none := by
  have hop : s.tree.unaryOp? = none := by
    rw [Tree.unaryOp?, hdelete]
    decide
  simp only [Site.kind] at hkind
  simp [valueByKind?, hkind, hop]

namespace Site

/-- An expression that assigns a part of it, with a chain in that part, is a wall. -/
theorem wall_of_isAssigned {src : Source} {c y q : Site} (hc : c ∈ y.below)
    (hassigned : c.isAssigned = true) (hq : q ∈ c.within) (hchain : q.kind.isChain = true) :
    y.Wall src := by
  have hqy := within_trans (mem_within_of_mem_below hc) hq
  have hnot : ¬q.isPlain = true := by simp [isPlain, hchain]
  rcases kind_of_isAssigned hc hassigned with hkind | ⟨hkind, hdelete⟩
  · simp only [List.mem_cons, List.not_mem_nil, or_false] at hkind
    refine Wall.of_not_isPlain ?_ (fun f => ?_) hqy hnot
    · rcases hkind with hkind | hkind | hkind | hkind <;>
        simp [isPlain, isCandidate, Form.all, Form.handles, hkind, Kind.isChain, Kind.isRoot,
          Kind.isAccess]
    · simp only [kind] at hkind
      rcases hkind with hkind | hkind | hkind | hkind <;> simp [valueByKind?, hkind]
  · refine Wall.of_not_isPlain ?_ (fun f => valueByKind?_delete hkind hdelete) hqy hnot
    simp [isPlain, isCandidate, Form.all, Form.handles, hkind, hdelete, Kind.isChain, Kind.isRoot,
      Kind.isAccess]

/-- An expression that assigns a part of it has a sign of its own. -/
theorem isSigned_of_isAssigned {c y : Site} (hc : c ∈ y.below) (h : c.isAssigned = true) :
    y.kind.isSigned = true := by
  rcases kind_of_isAssigned hc h with hkind | ⟨hkind, -⟩
  · simp only [List.mem_cons, List.not_mem_nil, or_false] at hkind
    rcases hkind with hkind | hkind | hkind | hkind <;> rw [hkind] <;> rfl
  · rw [hkind]
    rfl

/-- What is assigned has an expression around it that assigns it. -/
theorem exists_parent_of_isAssigned {t : Tree} {c : Site} (hc : c ∈ Site.list t)
    (hassigned : c.isAssigned = true) : ∃ y ∈ Site.list t, c ∈ y.below := by
  rcases eq_root_or_mem_below hc with rfl | hparent
  · simp [isAssigned, root] at hassigned
  · exact hparent

namespace Target

variable {p : Pass} {src : Source} {t : Tree} {c : Site}

theorem static (hc : c.Target src t) : c.Static src := by
  obtain ⟨names, hnames⟩ := Option.isSome_iff_exists.mp hc.segments
  exact .of_segments? hnames

/-- A target is no read. -/
theorem replacement?_eq_none (hc : c.Target src t) : p.replacement? src c = none :=
  Pass.replacement?_of_isWritten hc.static (isWritten_of_isAssigned hc.assigned)

/-- A target has no answer, and nothing around it has one. -/
theorem unanswered (hc : c.Target src t) (hg : t.Regular src) (hk : t.Chained) :
    p.Unanswered src t c := by
  obtain ⟨y, hy, hbelow⟩ := exists_parent_of_isAssigned hc.mem hc.assigned
  have hwall : y.Wall src :=
    wall_of_isAssigned hbelow hc.assigned (mem_within_self c) hc.static.isChain
  exact .of_wall hwall hg hk hy hbelow hc.static (isWritten_of_isAssigned hc.assigned)

end Target

end Site

namespace Pass

/-- What becomes of a static chain that is assigned, in a run over a tree that fits its source and
    has no faults. The chain itself is not replaced. Unless an edit holds the whole of it, it is
    kept if and only if nothing in it has a replacement. On a tree as the grammars make them no
    edit ever holds the whole of it, it is kept if and only if none of its shorter beginnings has
    a replacement, and otherwise the longest of these is replaced. -/
theorem run_keeps_target_iff (p : Pass) (src : Source) (t : Tree) (path : String) (c : Site)
    (hw : t.WellFormed src) (hclean : t.firstBad? = none) (hc : c.Target src t) :
    ∃ o, p.run src t path = .ok o ∧ p.replacement? src c = none ∧
      ((∀ e ∈ o.edits, ¬(e.start ≤ c.tree.start ∧ c.tree.stop ≤ e.stop)) →
        (o.Keeps src c ↔ ∀ q ∈ c.within, p.replacement? src q = none)) ∧
      (t.Regular src → t.Chained →
        (∀ e ∈ o.edits, ¬(e.start ≤ c.tree.start ∧ c.tree.stop ≤ e.stop)) ∧
        (o.Keeps src c ↔ ∀ q, c.BeginsWith q → q ≠ c → p.replacement? src q = none) ∧
        ∀ q r, c.BeginsWith q → p.replacement? src q = some r →
          (∀ x, c.BeginsWith x → x.BeginsWith q → x ≠ q → p.replacement? src x = none) →
          q.substitution src r ∈ o.edits) := by
  obtain ⟨code, hrun, hsplice⟩ := run_eq_ok (p := p) hw hclean path
  refine ⟨_, hrun, hc.replacement?_eq_none, ?_, ?_⟩
  · intro hnone
    rw [keeps_iff_apart hw hc.mem hsplice]
    exact apart_iff_replacement?_within hw hc.mem hnone
  · intro hg hk
    have hu : p.Unanswered src t c := hc.unanswered hg hk
    refine ⟨fun e he => hu.not_holds_edits hw hg hk he, ?_, fun q r => hu.substitution_mem hw hg hk⟩
    exact hu.keeps_iff hw hg hk hsplice

end Pass

/-! ## An assignment into a configured object

`process.env.NODE_ENV = "test";`, with the defines spelled as nested objects. -/

namespace Sample

def assignmentSource : Source :=
  .ofString "process.env.NODE_ENV = \"test\";"

def assignedObject : Tree :=
  part .memberExpression true 0 11 [.object]
    [part .identifier true 0 7 [.object] [], token "." 7 8 [],
     part .propertyIdentifier true 8 11 [.property] []]

def assignedChain : Tree :=
  part .memberExpression true 0 20 [.left]
    [assignedObject, token "." 11 12 [], part .propertyIdentifier true 12 20 [.property] []]

def assignment : Tree :=
  part .assignmentExpression true 0 29 []
    [assignedChain, token "=" 21 22 [],
     part .stringLiteral true 23 29 [.right]
      [token "\"" 23 24 [], part (.other "string_fragment") true 24 28 [] [],
       token "\"" 28 29 []]]

def assignmentStatement : Tree :=
  part (.other "expression_statement") true 0 30 [] [assignment, token ";" 29 30 []]

def assignmentTree : Tree :=
  part (.other "program") true 0 30 [] [assignmentStatement]

/-- The chain on the left of the assignment. -/
def assignedSite : Site :=
  ⟨assignedChain, [assignment, assignmentStatement, assignmentTree]⟩

/-- The object of that chain. -/
def assignedObjectSite : Site :=
  ⟨assignedObject, [assignedChain, assignment, assignmentStatement, assignmentTree]⟩

def nestedPass : Pass :=
  .ofDefines ⟨[("process", .object [("env", .object [("NODE_ENV", .string "production")])])]⟩ true
    default

end Sample

namespace Pass

theorem run_keeps_target_iff_nested :
    Sample.assignmentTree.WellFormed Sample.assignmentSource ∧
    Sample.assignmentTree.firstBad? = none ∧
    Sample.assignmentTree.Regular Sample.assignmentSource ∧ Sample.assignmentTree.Chained ∧
    Sample.assignedSite.Target Sample.assignmentSource Sample.assignmentTree ∧
    ∃ o, Sample.nestedPass.run Sample.assignmentSource Sample.assignmentTree "a.js" = .ok o ∧
      Sample.nestedPass.replacement? Sample.assignmentSource Sample.assignedSite = none ∧
      ¬o.Keeps Sample.assignmentSource Sample.assignedSite ∧
      o.code = "(\x7b NODE_ENV: \"production\" \x7d).NODE_ENV = \"test\";" := by
  have hw : Sample.assignmentTree.WellFormed Sample.assignmentSource := by decide
  have hclean : Sample.assignmentTree.firstBad? = none := by decide
  have hg : Sample.assignmentTree.Regular Sample.assignmentSource := by decide +kernel
  have hk : Sample.assignmentTree.Chained := by decide +kernel
  have hmem : Sample.assignedSite ∈ Site.list Sample.assignmentTree :=
    List.mem_of_getElem? (i := 3) rfl
  have hc : Sample.assignedSite.Target Sample.assignmentSource Sample.assignmentTree :=
    ⟨hmem, by decide, by decide +kernel⟩
  obtain ⟨o, hrun, hself, -, hrest⟩ := run_keeps_target_iff Sample.nestedPass
    Sample.assignmentSource Sample.assignmentTree "a.js" Sample.assignedSite hw hclean hc
  obtain ⟨-, hkeeps, -⟩ := hrest hg hk
  refine ⟨hw, hclean, hg, hk, hc, o, hrun, hself, ?_, ?_⟩
  · -- The object of the chain is configured.
    rw [hkeeps]
    intro hnone
    have hobject : Sample.assignedSite.BeginsWith Sample.assignedObjectSite :=
      .object rfl (.self _)
    have hne : Sample.assignedObjectSite ≠ Sample.assignedSite := by
      intro heq
      exact absurd (congrArg Site.level heq) (by decide)
    have hsome : (Sample.nestedPass.replacement? Sample.assignmentSource
        Sample.assignedObjectSite).isSome = true := by
      decide +kernel
    rw [hnone _ hobject hne] at hsome
    simp at hsome
  · have hcode : (Sample.nestedPass.run Sample.assignmentSource Sample.assignmentTree
        "a.js").toOption.map (·.code) =
          some "(\x7b NODE_ENV: \"production\" \x7d).NODE_ENV = \"test\";" := by
      decide +kernel
    rw [hrun] at hcode
    exact Option.some.inj hcode

end Pass
end DefineFold
